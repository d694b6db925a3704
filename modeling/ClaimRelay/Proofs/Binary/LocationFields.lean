import ClaimRelay.Binary.Token
import ClaimRelay.Proofs.Binary.Contents

/-!
# The fields of a location

A location is read field by field, in whatever order the fields come. What has been read so far is seen through
the field that is found under a label, and reading one field changes what is found under its label only.
-/

namespace ClaimRelay.Binary

/-- Whether a claim can be a field: its label is one of nine, and its value of the kind that belongs to it. -/
def FieldKind (c : Claim) : Prop :=
  match c.value with
  | .double _ => c.label ∈ ([1, 2, 3, 4, 5, 6, 7] : List Label)
  | .int _ => c.label = 8
  | .uint _ => c.label = 9
  | _ => False

namespace PartialLocation

/-- The field that has been read under a label. -/
def get? (p : PartialLocation) : Label → Option Value
  | 1 => p.latitude.map .double
  | 2 => p.longitude.map .double
  | 3 => p.altitude.map .double
  | 4 => p.accuracy.map .double
  | 5 => p.altitudeAccuracy.map .double
  | 6 => p.heading.map .double
  | 7 => p.speed.map .double
  | 8 => p.timestamp.map .int
  | 9 => p.age.map .uint
  | _ => none

/-- What has been read once all of a location has been; its position always is. -/
def ofLocation (l : Location) : PartialLocation where
  latitude := l.latitude
  longitude := l.longitude
  altitude := l.altitude
  accuracy := l.accuracy
  altitudeAccuracy := l.altitudeAccuracy
  heading := l.heading
  speed := l.speed
  timestamp := l.timestamp
  age := l.age

end PartialLocation

/-- Whether claims are the fields of a location, each once and in whatever order. -/
structure Fields (l : Location) (fields : List Claim) : Prop where
  distinct : (fields.map Claim.label).Nodup
  found (label : Label) (v : Value) : ⟨label, v⟩ ∈ fields ↔ (PartialLocation.ofLocation l).get? label = some v

namespace PartialLocation

variable {p q : PartialLocation} {k : Label} {v : Value} {c : Claim} {cs : List Claim} {l : Location}

/-! ## What is found under a label -/

theorem fieldKind_double {x : Double} :
    FieldKind ⟨k, .double x⟩ ↔ k ∈ ([1, 2, 3, 4, 5, 6, 7] : List Label) := Iff.rfl

theorem fieldKind_of_get? (h : p.get? k = some v) : FieldKind ⟨k, v⟩ := by
  unfold get? at h
  split at h
  all_goals
    first
    | cases h
    | obtain ⟨x, -, rfl⟩ := Option.map_eq_some_iff.mp h
      first | rfl | exact fieldKind_double.mpr (by decide)

theorem get?_empty : ({} : PartialLocation).get? k = none := by
  unfold get?
  split <;> rfl

theorem ext_get? (h : ∀ k, p.get? k = q.get? k) : p = q := by
  have double {a b : Option Double} : a.map Value.double = b.map .double → a = b :=
    (Option.map_inj_right fun _ _ => Value.double.inj).mp
  have int {a b : Option Int64} : a.map Value.int = b.map .int → a = b :=
    (Option.map_inj_right fun _ _ => Value.int.inj).mp
  have uint {a b : Option UInt64} : a.map Value.uint = b.map .uint → a = b :=
    (Option.map_inj_right fun _ _ => Value.uint.inj).mp
  cases p
  cases q
  exact PartialLocation.mk.injEq .. ▸ ⟨double (h 1), double (h 2), double (h 3), double (h 4), double (h 5),
    double (h 6), double (h 7), int (h 8), uint (h 9)⟩

theorem complete_eq_ok : p.complete = .ok l ↔ p = ofLocation l := by
  constructor
  · intro h
    obtain ⟨latitude, longitude⟩ := p
    unfold complete at h
    split at h
    · rename_i hlat hlon
      obtain rfl : latitude = some _ := hlat
      obtain rfl : longitude = some _ := hlon
      cases h
      rfl
    · cases h
  · rintro rfl
    rfl

/-! ## Reading one field -/

theorem has?_eq_some {read : Bool} (h : p.has? k = some read) : (p.get? k).isSome = read := by
  unfold has? at h
  split at h <;> cases h <;> exact Option.isSome_map

theorem put?_of_kind (h : FieldKind c) : ∃ q, p.put? c.label c.value = some q := by
  obtain ⟨k, v⟩ := c
  unfold FieldKind at h
  split at h
  · rename_i x hv
    obtain rfl : v = .double x := hv
    simp only [List.mem_cons, List.not_mem_nil, or_false] at h
    rcases h with rfl | rfl | rfl | rfl | rfl | rfl | rfl <;> exact ⟨_, rfl⟩
  · rename_i x hv
    obtain rfl : k = 8 := h
    obtain rfl : v = .int x := hv
    exact ⟨_, rfl⟩
  · rename_i x hv
    obtain rfl : k = 9 := h
    obtain rfl : v = .uint x := hv
    exact ⟨_, rfl⟩
  · exact h.elim

theorem has?_of_put? (h : p.put? k v = some q) : p.has? k = some (p.get? k).isSome := by
  unfold put? at h
  split at h <;> cases h <;> exact congrArg some Option.isSome_map.symm

theorem get?_put? (h : p.put? k v = some q) (j : Label) : q.get? j = if j = k then some v else p.get? j := by
  by_cases hj : j = k
  · rw [if_pos hj, hj]
    unfold put? at h
    split at h <;> cases h <;> rfl
  · rw [if_neg hj]
    unfold put? at h
    split at h <;> cases h
    all_goals
      unfold get?
      split <;> first | rfl | exact absurd rfl hj

theorem addField_eq_ok : p.addField c = .ok q ↔ p.get? c.label = none ∧ p.put? c.label c.value = some q := by
  unfold addField
  constructor
  · intro h
    split at h
    · cases h
    · cases h
    · rename_i hhas
      split at h
      · cases h
      · rename_i hput
        cases h
        have hnone := has?_eq_some hhas
        exact ⟨Option.isNone_iff_eq_none.mp (Option.isSome_eq_false_iff.mp hnone), hput⟩
  · rintro ⟨hnone, hput⟩
    rw [has?_of_put? hput, hnone]
    simp only [Option.isSome_none, hput]
    rfl

/-! ## Reading all fields -/

/-- Whether claims are fields with labels of their own, under none of which a field has been read. -/
structure Unread (p : PartialLocation) (cs : List Claim) : Prop where
  kinds : ∀ c ∈ cs, FieldKind c
  distinct : (cs.map Claim.label).Nodup
  unread : ∀ c ∈ cs, p.get? c.label = none

theorem unread_cons (h : p.addField c = .ok q) : p.Unread (c :: cs) ↔ q.Unread cs := by
  obtain ⟨hnone, hput⟩ := addField_eq_ok.mp h
  have hkind : FieldKind c := by
    have := get?_put? hput c.label
    rw [if_pos rfl] at this
    exact fieldKind_of_get? this
  constructor
  · intro hu
    obtain ⟨hnot, hdistinct⟩ := List.nodup_cons.mp hu.distinct
    refine ⟨fun d hd => hu.kinds d (.tail _ hd), hdistinct, fun d hd => ?_⟩
    have hne : d.label ≠ c.label := fun he => hnot (he ▸ List.mem_map_of_mem hd)
    rw [get?_put? hput, if_neg hne]
    exact hu.unread d (.tail _ hd)
  · intro hu
    have hothers : ∀ d ∈ cs, d.label ≠ c.label ∧ p.get? d.label = none := by
      intro d hd
      have hread := hu.unread d hd
      rw [get?_put? hput] at hread
      split at hread
      · cases hread
      · exact ⟨‹_›, hread⟩
    refine ⟨List.forall_mem_cons.mpr ⟨hkind, hu.kinds⟩, List.nodup_cons.mpr ⟨fun hmem => ?_, hu.distinct⟩,
      List.forall_mem_cons.mpr ⟨hnone, fun d hd => (hothers d hd).2⟩⟩
    obtain ⟨d, hd, hl⟩ := List.mem_map.mp hmem
    exact (hothers d hd).1 hl

theorem fields_read : (∃ q, cs.foldlM addField p = .ok q) ↔ p.Unread cs := by
  induction cs generalizing p with
  | nil => exact ⟨fun _ => ⟨nofun, .nil, nofun⟩, fun _ => ⟨p, rfl⟩⟩
  | cons c cs ih =>
    rw [List.foldlM_cons]
    constructor
    · intro ⟨q, h⟩
      obtain ⟨p', hp, h⟩ := bind_eq_ok.mp h
      exact (unread_cons hp).mpr (ih.mp ⟨q, h⟩)
    · intro h
      obtain ⟨p', hput⟩ := put?_of_kind (p := p) (h.kinds c (.head _))
      have hp : p.addField c = .ok p' := addField_eq_ok.mpr ⟨h.unread c (.head _), hput⟩
      obtain ⟨q, hq⟩ := ih.mpr ((unread_cons hp).mp h)
      exact ⟨q, bind_eq_ok.mpr ⟨p', hp, hq⟩⟩

theorem get?_fields (h : cs.foldlM addField p = .ok q) :
    q.get? k = some v ↔ p.get? k = some v ∨ ⟨k, v⟩ ∈ cs := by
  induction cs generalizing p with
  | nil =>
    cases h
    simp
  | cons c cs ih =>
    obtain ⟨label, value⟩ := c
    rw [List.foldlM_cons] at h
    obtain ⟨p', hp, hrest⟩ := bind_eq_ok.mp h
    obtain ⟨hnone, hput⟩ := addField_eq_ok.mp hp
    rw [ih hrest, get?_put? hput, List.mem_cons, Claim.mk.injEq]
    by_cases hk : k = label
    · subst hk
      simp [hnone, eq_comm]
    · simp [hk]

theorem complete_fields :
    (∃ p, cs.foldlM addField {} = .ok p ∧ p.complete = .ok l) ↔ Fields l cs := by
  have hempty : Unread {} cs ↔ (∀ c ∈ cs, FieldKind c) ∧ (cs.map Claim.label).Nodup :=
    ⟨fun h => ⟨h.kinds, h.distinct⟩, fun h => ⟨h.1, h.2, fun _ _ => get?_empty⟩⟩
  have hread {p : PartialLocation} (hp : cs.foldlM addField {} = .ok p) (k : Label) (v : Value) :
      ⟨k, v⟩ ∈ cs ↔ p.get? k = some v := by
    rw [get?_fields hp, get?_empty]
    simp
  constructor
  · rintro ⟨p, hp, hl⟩
    obtain rfl := complete_eq_ok.mp hl
    exact ⟨(fields_read.mp ⟨_, hp⟩).distinct, hread hp⟩
  · intro h
    have hkinds : ∀ c ∈ cs, FieldKind c := fun c hc => fieldKind_of_get? ((h.found c.label c.value).mp hc)
    obtain ⟨p, hp⟩ := fields_read.mpr (hempty.mpr ⟨hkinds, h.distinct⟩)
    have heq : p = ofLocation l :=
      ext_get? fun k => Option.ext fun v => (hread hp k v).symm.trans (h.found k v)
    exact ⟨p, hp, complete_eq_ok.mpr heq⟩

end PartialLocation

theorem Fields.unique {l l' : Location} {fields : List Claim} (h : Fields l fields) (h' : Fields l' fields) :
    l = l' := by
  obtain ⟨p, hp, hl⟩ := PartialLocation.complete_fields.mpr h
  obtain ⟨p', hp', hl'⟩ := PartialLocation.complete_fields.mpr h'
  cases hp.symm.trans hp'
  exact Except.ok.inj (hl.symm.trans hl')

end ClaimRelay.Binary
