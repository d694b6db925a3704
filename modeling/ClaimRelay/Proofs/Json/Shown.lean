import ClaimRelay.Proofs.Json.Document
import ClaimRelay.Proofs.Text.Base64

/-!
# What claim sets show as

The JSON value of a claim set, said part by part of the claim set alone: labels in decimal, bytes by their bits, of
doubles only the numbers, of a location the fields that are there. Each claim set shows as just one value.
-/

namespace ClaimRelay

/-! ## Values -/

/-- Neither infinite nor NaN: the bits of the exponent are not all ones. -/
def Double.IsNumber (x : Double) : Prop := (x.bits.toNat >>> 52) % 0x800 ≠ 0x7ff

/-- Whether a value without parts shows as the JSON value. -/
inductive Value.Scalar : Value → Json → Prop
  | int (v : Int64) : Scalar (.int v) (.int v.toInt)
  | uint (v : UInt64) : Scalar (.uint v) (.int v.toNat)
  | number {x : Double} (h : x.IsNumber) : Scalar (.double x) (.double x)
  | notNumber {x : Double} (h : ¬x.IsNumber) : Scalar (.double x) .null
  | text (v : String) : Scalar (.text v) (.string v)
  | bytes {v : List UInt8} {text : List Char} (h : Text.Base64Url v text) : Scalar (.bytes v) (.string (.ofList text))
  | bool (v : Bool) : Scalar (.bool v) (.bool v)
  | null : Scalar .null .null

/-- The fields of a location as they are declared, those that are absent among them. -/
def Location.declared (l : Location) : List (String × Option Value) :=
  [("latitude", some (.double l.latitude)), ("longitude", some (.double l.longitude)),
    ("altitude", l.altitude.map .double), ("accuracy", l.accuracy.map .double),
    ("altitude_accuracy", l.altitudeAccuracy.map .double), ("heading", l.heading.map .double),
    ("speed", l.speed.map .double), ("timestamp", l.timestamp.map .int), ("age", l.age.map .uint)]

/-- Whether these are the present ones of the declared fields, in their order. -/
inductive Location.Present : List (String × Option Value) → List (String × Json) → Prop
  | none : Present [] []
  | absent {name : String} {rest : List (String × Option Value)} {fields : List (String × Json)}
    (h : Present rest fields) : Present ((name, .none) :: rest) fields
  | present {name : String} {v : Value} {shown : Json} {rest : List (String × Option Value)}
    {fields : List (String × Json)} (hv : v.Scalar shown) (h : Present rest fields) :
    Present ((name, some v) :: rest) ((name, shown) :: fields)

inductive Value.ShowsAs : Value → Json → Prop
  | scalar {v : Value} {shown : Json} (h : v.Scalar shown) : ShowsAs v shown
  | location {l : Location} {fields : List (String × Json)} (h : Location.Present l.declared fields) :
    ShowsAs (.location l) (.object fields)

theorem Double.isNumber_iff {x : Double} : x.IsNumber ↔ x.isFinite = true := by
  have hfield : x.bits.toNat >>> 52 = x.bits.toNat / 0x10000000000000 := Nat.shiftRight_eq_div_pow ..
  rw [IsNumber, hfield, isFinite, bne_iff_ne]
  exact Iff.rfl

theorem Json.ofDouble_scalar (x : Double) : (Value.double x).Scalar (ofDouble x) := by
  unfold ofDouble
  split
  · exact .number (Double.isNumber_iff.mpr ‹_›)
  · exact .notNumber fun h => ‹¬_› (Double.isNumber_iff.mp h)

theorem Value.Scalar.unique {v : Value} {x y : Json} (hx : v.Scalar x) (hy : v.Scalar y) : x = y := by
  cases hx with
  | bytes hx => cases hy with
    | bytes hy => rw [hx.unique hy]
  | number hx => cases hy with
    | number => rfl
    | notNumber hy => exact absurd hx hy
  | notNumber hx => cases hy with
    | number hy => exact absurd hy hx
    | notNumber => rfl
  | int | uint | text | bool | null =>
    cases hy
    rfl

namespace Location

theorem Present.unique {declared : List (String × Option Value)} {xs ys : List (String × Json)}
    (hx : Present declared xs) (hy : Present declared ys) : xs = ys := by
  induction hx generalizing ys with
  | none =>
    cases hy
    rfl
  | absent _ ih =>
    cases hy with
    | absent hy => exact ih hy
  | present hv _ ih =>
    cases hy with
    | present hv' hy => rw [hv.unique hv', ih hy]

theorem Present.optional {α : Type} {f : α → Value} {shown : α → Json} (hf : ∀ a, (f a).Scalar (shown a))
    (name : String) (field : Option α) {rest : List (String × Option Value)} {fields : List (String × Json)}
    (h : Present rest fields) :
    Present ((name, field.map f) :: rest) ((field.map fun a => (name, shown a)).toList ++ fields) := by
  cases field with
  | none => exact .absent h
  | some a => exact .present (hf a) h

theorem present_ofLocation (l : Location) :
    ∃ fields, Json.ofLocation l = .object fields ∧ Present l.declared fields := by
  refine ⟨_, rfl, ?_⟩
  have hd := Json.ofDouble_scalar
  simp only [List.append_assoc]
  refine .present (hd _) (.present (hd _) ?_)
  refine .optional hd _ _ (.optional hd _ _ (.optional hd _ _ (.optional hd _ _ (.optional hd _ _ ?_))))
  rw [← List.append_nil (l.age.map _).toList]
  exact .optional Value.Scalar.int _ _ (.optional Value.Scalar.uint _ _ .none)

end Location

theorem Value.showsAs_ofValue (v : Value) : v.ShowsAs (.ofValue v) := by
  cases v with
  | location l =>
    obtain ⟨fields, hfields, hpresent⟩ := Location.present_ofLocation l
    rw [Json.ofValue, hfields]
    exact .location hpresent
  | double x => exact .scalar (Json.ofDouble_scalar x)
  | bytes v => exact .scalar (.bytes (Text.base64Url_base64 v))
  | int v => exact .scalar (.int v)
  | uint v => exact .scalar (.uint v)
  | text v => exact .scalar (.text v)
  | bool v => exact .scalar (.bool v)
  | null => exact .scalar .null

theorem Value.showsAs_iff {v : Value} {shown : Json} : v.ShowsAs shown ↔ shown = .ofValue v := by
  refine ⟨fun h => ?_, fun h => h ▸ v.showsAs_ofValue⟩
  have hv := v.showsAs_ofValue
  cases h with
  | scalar h => cases hv with
    | scalar hv => exact h.unique hv
    | location => cases h
  | location h =>
    generalize Json.ofValue _ = other at hv
    cases hv with
    | scalar hv => cases hv
    | location hv => rw [h.unique hv]

/-! ## Claim sets -/

inductive Claim.AllShowAs : List Claim → List (String × Json) → Prop
  | nil : AllShowAs [] []
  | cons {c : Claim} {cs : List Claim} {shown : Json} {fields : List (String × Json)} (hv : c.value.ShowsAs shown)
    (h : AllShowAs cs fields) : AllShowAs (c :: cs) ((toString c.label.toInt, shown) :: fields)

mutual

inductive Entry.ShowsAs : Entry → Json → Prop
  | submodule {name : String} {cs : List Claim} {es : List Entry} {fields sect : List (String × Json)}
    (hc : Claim.AllShowAs cs fields) (he : Entry.SectionShowsAs es sect) :
    ShowsAs (.submodule name cs es) (.object (fields ++ sect))
  | token {t : NestedToken} {text : List Char} (h : Text.Base64Url t.bytes text) :
    ShowsAs (.token t) (.object [("kind", .int t.kind.code.toNat), ("token", .string (.ofList text))])

/-- There is a section only where there are entries. -/
inductive Entry.SectionShowsAs : List Entry → List (String × Json) → Prop
  | none : SectionShowsAs [] []
  | some {e : Entry} {es : List Entry} {fields : List (String × Json)} (h : Entry.AllShowAs (e :: es) fields) :
    SectionShowsAs (e :: es) [("submods", .object fields)]

inductive Entry.AllShowAs : List Entry → List (String × Json) → Prop
  | nil : AllShowAs [] []
  | cons {e : Entry} {es : List Entry} {shown : Json} {fields : List (String × Json)} (he : Entry.ShowsAs e shown)
    (h : AllShowAs es fields) : AllShowAs (e :: es) ((e.name, shown) :: fields)

end

inductive ClaimSet.ShowsAs (m : ClaimSet) : Json → Prop
  | of {fields sect : List (String × Json)} (hc : Claim.AllShowAs m.claims fields)
    (he : Entry.SectionShowsAs m.entries sect) : ShowsAs m (.object (fields ++ sect))

theorem Claim.allShowAs_iff {cs : List Claim} {fields : List (String × Json)} :
    AllShowAs cs fields ↔ fields = cs.map Claim.field := by
  constructor
  · intro h
    induction h with
    | nil => rfl
    | cons hv _ ih =>
      rw [Value.showsAs_iff.mp hv, ih]
      rfl
  · rintro rfl
    induction cs with
    | nil => exact .nil
    | cons c cs ih => exact .cons c.value.showsAs_ofValue ih

mutual

theorem Entry.showsAs_iff : ∀ (e : Entry) {shown : Json}, e.ShowsAs shown ↔ shown = e.json
  | .submodule name cs es, shown => by
    constructor
    · rintro (⟨hc, he⟩ | _)
      rw [Claim.allShowAs_iff.mp hc, (Entry.sectionShowsAs_iff es).mp he]
      rfl
    · rintro rfl
      exact .submodule (Claim.allShowAs_iff.mpr rfl) ((Entry.sectionShowsAs_iff es).mpr rfl)
  | .token t, shown => by
    constructor
    · rintro (_ | h)
      rw [h.unique (Text.base64Url_base64 t.bytes)]
      rfl
    · rintro rfl
      exact .token (Text.base64Url_base64 t.bytes)

theorem Entry.sectionShowsAs_iff : ∀ (es : List Entry) {sect : List (String × Json)},
    Entry.SectionShowsAs es sect ↔ sect = Entry.sectionFields es
  | [], sect => ⟨fun h => by cases h; rfl, fun h => h ▸ .none⟩
  | e :: rest, sect => by
    constructor
    · intro h
      cases h with
      | some h => cases h with
        | cons he h =>
          rw [(Entry.showsAs_iff e).mp he, (Entry.allShowAs_iff rest).mp h]
          rfl
    · rintro rfl
      exact .some (.cons ((Entry.showsAs_iff e).mpr rfl) ((Entry.allShowAs_iff rest).mpr rfl))

theorem Entry.allShowAs_iff : ∀ (es : List Entry) {fields : List (String × Json)},
    Entry.AllShowAs es fields ↔ fields = Entry.fields es
  | [], fields => ⟨fun h => by cases h; rfl, fun h => h ▸ .nil⟩
  | e :: rest, fields => by
    constructor
    · intro h
      cases h with
      | cons he h =>
        rw [(Entry.showsAs_iff e).mp he, (Entry.allShowAs_iff rest).mp h]
        rfl
    · rintro rfl
      exact .cons ((Entry.showsAs_iff e).mpr rfl) ((Entry.allShowAs_iff rest).mpr rfl)

end

theorem ClaimSet.showsAs_iff {m : ClaimSet} {shown : Json} : m.ShowsAs shown ↔ shown = m.json := by
  constructor
  · rintro ⟨hc, he⟩
    rw [Claim.allShowAs_iff.mp hc, (Entry.sectionShowsAs_iff m.entries).mp he]
    rfl
  · rintro rfl
    exact .of (Claim.allShowAs_iff.mpr rfl) ((Entry.sectionShowsAs_iff m.entries).mpr rfl)

end ClaimRelay
