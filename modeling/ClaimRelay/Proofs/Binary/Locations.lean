import ClaimRelay.Proofs.Binary.Rewriting
import Mathlib.Data.List.Perm.Basic

/-!
# Locations read field by field

A location is read from claims in any order: each under one of nine labels, of the kind that belongs to it, none
twice, and the two of the position among them. What is read then is the same in every order, each field in its
own place. A location is no field of a location.
-/

namespace ClaimRelay.Binary

/-! ## Which claims make a location -/

section
variable {l : Location} {cs ds : List Claim}

theorem Fields.of_perm (h : Fields l cs) (hperm : cs.Perm ds) : Fields l ds :=
  ⟨(hperm.map Claim.label).nodup_iff.mp h.distinct, fun k v => hperm.mem_iff.symm.trans (h.found k v)⟩

theorem Fields.kinds (h : Fields l cs) : ∀ c ∈ cs, FieldKind c :=
  fun c hc => PartialLocation.fieldKind_of_get? ((h.found c.label c.value).mp hc)

theorem FieldKind.label_mem {c : Claim} (h : FieldKind c) : c.label ∈ ([1, 2, 3, 4, 5, 6, 7, 8, 9] : List Label) := by
  unfold FieldKind at h
  split at h
  · exact List.mem_append_left [8, 9] h
  · rw [h]
    decide
  · rw [h]
    decide
  · exact h.elim

theorem Fields.length_le (h : Fields l cs) : cs.length ≤ 9 := by
  have hlabels : cs.map Claim.label ⊆ [1, 2, 3, 4, 5, 6, 7, 8, 9] := by
    intro k hk
    obtain ⟨c, hc, rfl⟩ := List.mem_map.mp hk
    exact (h.kinds c hc).label_mem
  have hlength := (List.subperm_of_subset h.distinct hlabels).length_le
  rwa [List.length_map] at hlength

/-- Whether claims are enough to be the fields of a location, and none is too many. -/
structure FieldsComplete (cs : List Claim) : Prop where
  kinds : ∀ c ∈ cs, FieldKind c
  distinct : (cs.map Claim.label).Nodup
  latitude : 1 ∈ cs.map Claim.label
  longitude : 2 ∈ cs.map Claim.label

theorem exists_fields_iff : (∃ l, Fields l cs) ↔ FieldsComplete cs := by
  constructor
  · rintro ⟨l, h⟩
    have hlatitude : ⟨1, .double l.latitude⟩ ∈ cs := (h.found 1 _).mpr rfl
    have hlongitude : ⟨2, .double l.longitude⟩ ∈ cs := (h.found 2 _).mpr rfl
    exact ⟨h.kinds, h.distinct, List.mem_map_of_mem hlatitude, List.mem_map_of_mem hlongitude⟩
  · intro h
    obtain ⟨p, hp⟩ := PartialLocation.fields_read.mpr
      (⟨h.kinds, h.distinct, fun _ _ => PartialLocation.get?_empty⟩ : PartialLocation.Unread {} cs)
    have hread : ∀ k ∈ cs.map Claim.label, ∃ v, p.get? k = some v := by
      intro k hk
      obtain ⟨c, hc, rfl⟩ := List.mem_map.mp hk
      exact ⟨c.value, (PartialLocation.get?_fields hp).mpr (.inr hc)⟩
    obtain ⟨_, hlatitude⟩ := hread 1 h.latitude
    obtain ⟨_, hlongitude⟩ := hread 2 h.longitude
    obtain ⟨latitude, hlatitude, -⟩ := Option.map_eq_some_iff.mp hlatitude
    obtain ⟨longitude, hlongitude, -⟩ := Option.map_eq_some_iff.mp hlongitude
    obtain ⟨l, hl⟩ : ∃ l, p.complete = .ok l := by
      unfold PartialLocation.complete
      rw [hlatitude, hlongitude]
      exact ⟨_, rfl⟩
    exact ⟨l, PartialLocation.complete_fields.mp ⟨p, hp, hl⟩⟩

end

/-! ## Reading -/

section
variable {ε α β : Type} {f : α → Except ε β} {as bs : List α} {cs : List β}

theorem mapM_eq_ok : as.mapM f = .ok cs ↔ List.Forall₂ (fun a c => f a = .ok c) as cs := by
  induction as generalizing cs with
  | nil => exact ⟨fun h => Except.ok.inj h ▸ .nil, fun h => by cases h; rfl⟩
  | cons a as ih =>
    rw [mapM_cons_eq_ok, List.forall₂_cons_left_iff]
    simp only [ih]

theorem mapM_perm (hperm : as.Perm bs) (h : bs.mapM f = .ok cs) : ∃ ds, as.mapM f = .ok ds ∧ ds.Perm cs := by
  obtain ⟨ds, hds, hcs⟩ := List.perm_comp_forall₂ hperm (mapM_eq_ok.mp h)
  exact ⟨ds, mapM_eq_ok.mpr hds, hcs⟩

end

namespace Node

variable {nodes others : List Node} {label : Label} {v : Value}

theorem location_eq_ok : value label (branch .location nodes) = .ok v ↔ label = locationLabel ∧
    ∃ cs l, nodes.mapM claim = .ok cs ∧ Fields l cs ∧ v = .location l := by
  rw [value_eq_ok]
  constructor
  · rintro (⟨tag, body, hnode, -⟩ | ⟨_, cs, l, hnode, hlabel, hv, hcs, hf⟩)
    · cases hnode
    · cases hnode
      exact ⟨hlabel, cs, l, hcs, hf, hv⟩
  · rintro ⟨hlabel, cs, l, hcs, hf, hv⟩
    exact .inr ⟨nodes, cs, l, rfl, hlabel, hv, hcs, hf⟩

theorem location_perm (hperm : nodes.Perm others) (h : value label (branch .location nodes) = .ok v) :
    value label (branch .location others) = .ok v := by
  obtain ⟨hlabel, cs, l, hcs, hf, hv⟩ := location_eq_ok.mp h
  obtain ⟨ds, hds, hfields⟩ := mapM_perm hperm.symm hcs
  exact location_eq_ok.mpr ⟨hlabel, ds, l, hds, hf.of_perm hfields.symm, hv⟩

/-- The fields that are read have no parts. -/
theorem field_plain (h : value label (branch .location nodes) = .ok v) :
    ∀ node ∈ nodes, ∃ labelBody tag body, node = branch .claim [leaf .integer labelBody, leaf tag body] := by
  obtain ⟨-, cs, l, hcs, hf, -⟩ := location_eq_ok.mp h
  have hkinds := hf.kinds
  have hreads := mapM_eq_ok.mp hcs
  clear h hcs hf
  induction hreads with
  | nil => exact List.forall_mem_nil _
  | @cons node c nodes cs hc _ ih =>
    obtain ⟨hkind, hrest⟩ := List.forall_mem_cons.mp hkinds
    refine List.forall_mem_cons.mpr ⟨?_, ih hrest⟩
    obtain ⟨labelBody, inner, rfl, -, hvalue⟩ := claim_eq_ok.mp hc
    rcases value_eq_ok.mp hvalue with ⟨tag, body, rfl, -⟩ | ⟨_, _, l, -, -, hl, -, -⟩
    · exact ⟨labelBody, tag, body, rfl⟩
    · unfold FieldKind at hkind
      rw [hl] at hkind
      exact hkind.elim

end Node

/-! ## Writing -/

theorem lengthBytes_length_le (n : Nat) : (lengthBytes n).length ≤ 9 := by
  unfold lengthBytes
  split
  · exact Nat.le_add_left 1 8
  · exact Nat.succ_le_succ (lengthDigits_length n).2

theorem encode_length_le (node : Node) : node.encode.length ≤ node.content.length + 10 := by
  have hlength := lengthBytes_length_le node.content.length
  rw [Node.encode, element_length]
  omega

theorem encodeSigned_length (v : Int64) : (encodeSigned v).length ≤ 8 :=
  (decodeSigned_eq_ok.mp (decodeSigned_encodeSigned v)).1.2

theorem field_content_length {c : Claim} (h : FieldKind c) : (plainNode c.value).content.length ≤ 8 := by
  unfold FieldKind at h
  cases hv : c.value with
  | double x => exact Nat.le_of_eq (bigEndian_length 8 x.bits.toNat)
  | int x => exact encodeSigned_length x
  | uint x => exact (decodeUnsigned_eq_ok.mp (decodeUnsigned_encodeUnsigned x)).1.2
  | _ =>
    rw [hv] at h
    exact h.elim

theorem field_length_le {c : Claim} (h : FieldKind c) : (fieldNode c).encode.length ≤ 46 := by
  have hfield := encode_length_le (fieldNode c)
  have hlabel := encode_length_le (.leaf .integer (encodeSigned c.label))
  have hvalue := encode_length_le (plainNode c.value)
  have hsigned : (Node.leaf .integer (encodeSigned c.label)).content.length ≤ 8 := encodeSigned_length c.label
  have hcontent := field_content_length h
  have hboth : (fieldNode c).content = (Node.leaf .integer (encodeSigned c.label)).encode ++
      ((plainNode c.value).encode ++ []) := rfl
  rw [hboth, List.length_append, List.append_nil] at hfield
  omega

theorem fields_length_le {cs : List Claim} (h : ∀ c ∈ cs, FieldKind c) :
    (Node.encodeAll (cs.map fieldNode)).length ≤ 46 * cs.length := by
  induction cs with
  | nil => exact Nat.zero_le _
  | cons c cs ih =>
    obtain ⟨hc, hcs⟩ := List.forall_mem_cons.mp h
    have hfirst : (element (fieldNode c).tag (fieldNode c).content).length ≤ 46 := field_length_le hc
    have hrest := ih hcs
    rw [List.map_cons, Node.encodeAll, List.length_append, List.length_cons]
    omega

theorem parse_encodeLocation (l : Location) :
    Node.parse (encodeLocation l) = .ok (.branch .location ((locationFields l).map fieldNode), []) := by
  have hproper : (valueNode (.location l)).Proper := (claimNode_proper ⟨locationLabel, .location l⟩).2.2.1
  have hsize : (valueNode (.location l)).encode.length < UInt64.size := by
    have hencode := encode_length_le (valueNode (.location l))
    have hcontent : (valueNode (.location l)).content.length ≤ 46 * (locationFields l).length :=
      fields_length_le (fields_locationFields l).kinds
    have hfields := (fields_locationFields l).length_le
    have hroom : 424 < UInt64.size := by decide
    omega
  have hheight : (valueNode (.location l)).height ≤ maxNesting := by
    rw [locationNode_height]
    decide
  rw [← encode_locationNode, Node.parse_encode hproper hsize, if_pos hheight]
  rfl

/-- **Locations.** Each field of a location that is read comes from the claim under its label, and is not there when
there is no such claim. -/
theorem location_fields (nodes : List Node) :
    (∀ label v, Node.value label (.branch .location nodes) = .ok v ↔ label = locationLabel ∧
      ∃ cs l, nodes.mapM Node.claim = .ok cs ∧ Fields l cs ∧ v = .location l) ∧
    ((∃ v, Node.value locationLabel (.branch .location nodes) = .ok v) ↔
      ∃ cs, nodes.mapM Node.claim = .ok cs ∧ FieldsComplete cs) ∧
    (∀ others, nodes.Perm others → ∀ v, Node.value locationLabel (.branch .location nodes) = .ok v →
      Node.value locationLabel (.branch .location others) = .ok v) ∧
    (∀ l, ∃ written, Node.parse (encodeLocation l) = .ok (.branch .location written, []) ∧
      Node.value locationLabel (.branch .location written) = .ok (.location l)) ∧
    ∀ node inner, node = .branch .location inner ∨ (∃ label, node = .branch .claim [label, .branch .location inner]) →
      node ∈ nodes → ∃ refusal, Node.value locationLabel (.branch .location nodes) = .error refusal := by
  refine ⟨fun label v => Node.location_eq_ok, ?_, fun others hperm v h => Node.location_perm hperm h, fun l => ?_,
    fun node inner hinner hmem => ?_⟩
  · simp only [Node.location_eq_ok, ← exists_fields_iff]
    constructor
    · rintro ⟨v, -, cs, l, hcs, hf, -⟩
      exact ⟨cs, hcs, l, hf⟩
    · rintro ⟨cs, hcs, l, hf⟩
      exact ⟨.location l, trivial, cs, l, hcs, hf, rfl⟩
  · have hplaced : Claim.Placed ⟨locationLabel, .location l⟩ := fun own ho => Option.some.inj ho
    exact ⟨_, parse_encodeLocation l, value_valueNode hplaced⟩
  · cases hv : Node.value locationLabel (.branch .location nodes) with
    | error refusal => exact ⟨refusal, rfl⟩
    | ok v =>
      obtain ⟨labelBody, tag, body, hnode⟩ := Node.field_plain hv node hmem
      rcases hinner with rfl | ⟨label, rfl⟩ <;> cases hnode

/-- The fields of a location in an order that is not that of their labels; one of them is a NaN. -/
def shuffled : List Claim := [⟨9, .uint 7⟩, ⟨2, .double ⟨0x7ff8000000000001⟩⟩, ⟨1, .double ⟨0⟩⟩]

theorem location_fields_shuffled :
    let l : Location := { latitude := ⟨0⟩, longitude := ⟨0x7ff8000000000001⟩, age := some 7 }
    Node.value locationLabel (.branch .location (shuffled.map fieldNode)) = .ok (.location l) ∧
    Node.value locationLabel (.branch .location (shuffled.reverse.map fieldNode)) = .ok (.location l) ∧
    ∃ refusal, Node.value locationLabel
      (.branch .location [labelledNode locationLabel (.branch .location (shuffled.map fieldNode))]) = .error refusal := by
  intro l
  have hread : Node.value locationLabel (.branch .location (shuffled.map fieldNode)) = .ok (.location l) := by
    with_unfolding_all rfl
  have hperm : (shuffled.map fieldNode).Perm (shuffled.reverse.map fieldNode) := (List.reverse_perm shuffled).symm.map _
  obtain ⟨-, -, hany, -, -⟩ := location_fields (shuffled.map fieldNode)
  obtain ⟨-, -, -, -, hnested⟩ :=
    location_fields [labelledNode locationLabel (.branch .location (shuffled.map fieldNode))]
  exact ⟨hread, hany _ hperm _ hread, hnested _ _ (.inr ⟨_, rfl⟩) (List.mem_singleton_self _)⟩

end ClaimRelay.Binary
