import ClaimRelay.ClaimSet
import ClaimRelay.Proofs.Binary.LocationFields
import ClaimRelay.Proofs.Binary.Spelling

/-!
# The grammar of tokens

What bytes are a token, and of which claim set, said without a parser: each element is derived from its parts, and
a number counts down how deep elements with a body of elements may still nest. Bytes have one derivation at most,
so they are the token of at most one claim set.
-/

namespace ClaimRelay.Binary

/-! ## Rules -/

/-- The values whose body is no list of elements. -/
inductive Primitive : Tag → Value → List UInt8 → Prop
  | boolean (v : Bool) : Primitive .boolean (.bool v) [if v then 0xff else 0x00]
  | integer {v : Int64} {body : List UInt8} (h : 1 ≤ body.length ∧ body.length ≤ 8)
    (hv : v.toInt = signedValue body) : Primitive .integer (.int v) body
  | unsigned {v : UInt64} {body : List UInt8} (h : 1 ≤ body.length ∧ body.length ≤ 8)
    (hv : v.toNat = ofBigEndian body) : Primitive .unsigned (.uint v) body
  | double {v : Double} {body : List UInt8} (h : body.length = 8) (hv : v.bits.toNat = ofBigEndian body) :
    Primitive .double (.double v) body
  | text (s : String) : Primitive .utf8String (.text s) (Text.utf8 s)
  | octets (body : List UInt8) : Primitive .octetString (.bytes body) body
  | null : Primitive .null .null []

structure PrimitiveOf (tag : Tag) (v : Value) (bytes : List UInt8) where
  {body : List UInt8}
  rule : Primitive tag v body
  element : ElementOf tag.byte body bytes

mutual

inductive ClaimOf : Nat → Claim → List UInt8 → Type
  | claim {n : Nat} {label : Label} {v : Value} {bytes labelBytes valueBytes : List UInt8}
    (l : PrimitiveOf .integer (.int label) labelBytes) (d : ValueOf n label v valueBytes)
    (e : ElementOf Tag.claim.byte (labelBytes ++ valueBytes) bytes) : ClaimOf (n + 1) ⟨label, v⟩ bytes

inductive ValueOf : Nat → Label → Value → List UInt8 → Type
  | primitive {n : Nat} {label : Label} {tag : Tag} {v : Value} {bytes : List UInt8} (d : PrimitiveOf tag v bytes) :
    ValueOf n label v bytes
  | location {n : Nat} {l : Location} {fields : List Claim} {bytes body : List UInt8} (d : ClaimsOf n fields body)
    (h : Fields l fields) (e : ElementOf Tag.location.byte body bytes) :
    ValueOf (n + 1) locationLabel (.location l) bytes

inductive ClaimsOf : Nat → List Claim → List UInt8 → Type
  | nil {n : Nat} : ClaimsOf n [] []
  | cons {n : Nat} {c : Claim} {cs : List Claim} {bytes rest : List UInt8} (d : ClaimOf n c bytes)
    (ds : ClaimsOf n cs rest) : ClaimsOf n (c :: cs) (bytes ++ rest)

end

mutual

inductive TokenOf : Nat → List Claim → List Entry → List UInt8 → Type
  | token {n : Nat} {cs : List Claim} {es : List Entry} {bytes claimBytes sectionBytes : List UInt8}
    (d : ClaimsOf n cs claimBytes) (s : SectionOf n es sectionBytes)
    (e : ElementOf Tag.token.byte (claimBytes ++ sectionBytes) bytes) : TokenOf (n + 1) cs es bytes

/-- The section of a token, if there is one. -/
inductive SectionOf : Nat → List Entry → List UInt8 → Type
  | absent {n : Nat} : SectionOf n [] []
  | present {n : Nat} {es : List Entry} {bytes body : List UInt8} (d : EntriesOf n es body)
    (e : ElementOf Tag.sect.byte body bytes) : SectionOf (n + 1) es bytes

inductive EntriesOf : Nat → List Entry → List UInt8 → Type
  | nil {n : Nat} : EntriesOf n [] []
  | cons {n : Nat} {entry : Entry} {es : List Entry} {bytes rest : List UInt8} (d : EntryOf n entry bytes)
    (ds : EntriesOf n es rest) : EntriesOf n (entry :: es) (bytes ++ rest)

inductive EntryOf : Nat → Entry → List UInt8 → Type
  | submodule {n : Nat} {name : String} {cs : List Claim} {es : List Entry} {bytes nameBytes tokenBytes : List UInt8}
    (s : PrimitiveOf .utf8String (.text name) nameBytes) (d : TokenOf n cs es tokenBytes)
    (e : ElementOf Tag.submodule.byte (nameBytes ++ tokenBytes) bytes) :
    EntryOf (n + 1) (.submodule name cs es) bytes
  | nested {n : Nat} {name : String} {kind : Int64} {content : List UInt8}
    {bytes nameBytes kindBytes contentBytes : List UInt8} (s : PrimitiveOf .utf8String (.text name) nameBytes)
    (k : PrimitiveOf .integer (.int kind) kindBytes) (h : 0 ≤ kind.toInt ∧ kind.toInt < UInt32.size)
    (d : PrimitiveOf .octetString (.bytes content) contentBytes)
    (e : ElementOf Tag.nested.byte (nameBytes ++ kindBytes ++ contentBytes) bytes) :
    EntryOf (n + 1) (.token ⟨.ofCode (UInt32.ofNat kind.toInt.toNat), name, content⟩) bytes

end

/-! ## Derivations are unique -/

theorem Primitive.proper {tag : Tag} {v : Value} {body : List UInt8} (h : Primitive tag v body) :
    Tag.ofByte tag.byte = tag ∧ Tag.isConstructed tag.byte = false := by
  cases h <;> exact ⟨rfl, rfl⟩

theorem Primitive.unique {tag : Tag} {v v' : Value} {body body' : List UInt8} (h : Primitive tag v body)
    (h' : Primitive tag v' body') (hb : body = body') : v = v' := by
  cases h with
  | boolean v =>
    cases h' with
    | boolean v' => cases v <;> cases v' <;> first | rfl | exact absurd hb (by decide)
  | integer hlen hv =>
    cases h' with
    | integer hlen' hv' => rw [Int64.toInt_inj.mp (hv.trans (hb ▸ hv'.symm))]
  | unsigned hlen hv =>
    cases h' with
    | unsigned hlen' hv' => rw [UInt64.toNat_inj.mp (hv.trans (hb ▸ hv'.symm))]
  | @double x _ hlen hv =>
    cases h' with
    | @double x' _ hlen' hv' =>
      have hbits : x.bits = x'.bits := UInt64.toNat_inj.mp (hv.trans (hb ▸ hv'.symm))
      obtain rfl : x = x' := congrArg Double.mk hbits
      rfl
  | text s =>
    cases h' with
    | text s' =>
      have hs := decodeText_utf8 s
      rw [hb, decodeText_utf8] at hs
      rw [Except.ok.inj hs]
  | octets body =>
    cases h' with
    | octets body' => rw [hb]
  | null =>
    cases h' with
    | null => rfl

theorem PrimitiveOf.unique {tag tag' : Tag} {v v' : Value} {bytes bytes' rest rest' : List UInt8}
    (d : PrimitiveOf tag v bytes) (d' : PrimitiveOf tag' v' bytes') (h : bytes ++ rest = bytes' ++ rest') :
    (⟨tag, v, bytes, d⟩ : (tag : Tag) × (v : Value) × (bytes : List UInt8) × PrimitiveOf tag v bytes) =
      ⟨tag', v', bytes', d'⟩ := by
  obtain ⟨hp, e⟩ := d
  obtain ⟨hp', e'⟩ := d'
  obtain ⟨htag, rfl, rfl, rfl⟩ := e.front e' h
  obtain rfl : tag = tag' := by rw [← hp.proper.1, ← hp'.proper.1, htag]
  obtain rfl := hp.unique hp' rfl
  obtain rfl := Subsingleton.elim e e'
  rfl

/-- A value with parts is told from a primitive one by its tag. -/
theorem PrimitiveOf.not_location {tag : Tag} {v : Value} {bytes bytes' body rest rest' : List UInt8}
    (d : PrimitiveOf tag v bytes) (e : ElementOf Tag.location.byte body bytes')
    (h : bytes ++ rest = bytes' ++ rest') : False := by
  obtain ⟨hp, e'⟩ := d
  obtain ⟨htag, -⟩ := e'.front e h
  have hleaf := hp.proper.2
  rw [htag] at hleaf
  cases hleaf

theorem ElementOf.head {tag : UInt8} {body bytes : List UInt8} (e : ElementOf tag body bytes) (rest : List UInt8) :
    (bytes ++ rest).head? = some tag := by
  obtain ⟨_, rfl⟩ := e
  rfl

theorem ElementOf.ne_nil {tag : UInt8} {body bytes : List UInt8} (e : ElementOf tag body bytes)
    (rest : List UInt8) : bytes ++ rest ≠ [] := by
  obtain ⟨_, rfl⟩ := e
  exact nofun

theorem nil_head : ([] : List UInt8).head? ≠ some Tag.claim.byte := nofun

theorem ClaimOf.not_ahead {n : Nat} {c : Claim} {bytes rest other : List UInt8} (d : ClaimOf n c bytes)
    (h : other = bytes ++ rest) (ho : other.head? ≠ some Tag.claim.byte) : False := by
  cases d with
  | claim l d e =>
    rw [h] at ho
    exact ho (e.head rest)

theorem SectionOf.head {n : Nat} {es : List Entry} {bytes : List UInt8} (d : SectionOf n es bytes) :
    bytes.head? ≠ some Tag.claim.byte := by
  cases d with
  | absent => exact nil_head
  | present d e =>
    have := e.head []
    rw [List.append_nil] at this
    rw [this]
    decide

theorem EntryOf.ne_nil {n : Nat} {entry : Entry} {bytes : List UInt8} (d : EntryOf n entry bytes)
    (rest : List UInt8) : bytes ++ rest ≠ [] := by
  cases d with
  | submodule s d e => exact e.ne_nil rest
  | nested s k h d e => exact e.ne_nil rest

mutual

theorem ClaimOf.unique : ∀ {n : Nat} {c c' : Claim} {bytes bytes' rest rest' : List UInt8} (d : ClaimOf n c bytes)
    (d' : ClaimOf n c' bytes'), bytes ++ rest = bytes' ++ rest' →
    (⟨c, bytes, d⟩ : (c : Claim) × (bytes : List UInt8) × ClaimOf n c bytes) = ⟨c', bytes', d'⟩
  | _, _, _, _, _, _, _, .claim l d e, .claim l' d' e', h => by
    obtain ⟨-, hbody, rfl, rfl⟩ := e.front e' h
    cases l.unique l' hbody
    cases d.unique d' (List.append_cancel_left hbody)
    cases Subsingleton.elim e e'
    rfl

theorem ValueOf.unique : ∀ {n : Nat} {label : Label} {v v' : Value} {bytes bytes' : List UInt8}
    (d : ValueOf n label v bytes) (d' : ValueOf n label v' bytes'), bytes = bytes' →
    (⟨v, bytes, d⟩ : (v : Value) × (bytes : List UInt8) × ValueOf n label v bytes) = ⟨v', bytes', d'⟩
  | _, _, _, _, _, _, .primitive d, .primitive d', h => by
    cases d.unique d' (congrArg (· ++ []) h)
    rfl
  | _, _, _, _, _, _, .primitive d, .location _ _ e, h => (d.not_location e (congrArg (· ++ []) h)).elim
  | _, _, _, _, _, _, .location _ _ e, .primitive d, h => (d.not_location e (congrArg (· ++ []) h.symm)).elim
  | _, _, _, _, _, _, .location d hl e, .location d' hl' e', h => by
    obtain ⟨-, rfl, rfl, -⟩ := e.front e' (congrArg (· ++ []) h)
    cases d.unique d' nil_head nil_head rfl
    cases hl.unique hl'
    cases Subsingleton.elim e e'
    rfl

/-- Claims end before what does not begin with the tag of a claim. -/
theorem ClaimsOf.unique : ∀ {n : Nat} {cs cs' : List Claim} {bytes bytes' rest rest' : List UInt8}
    (d : ClaimsOf n cs bytes) (d' : ClaimsOf n cs' bytes'), rest.head? ≠ some Tag.claim.byte →
    rest'.head? ≠ some Tag.claim.byte → bytes ++ rest = bytes' ++ rest' →
    (⟨cs, bytes, d⟩ : (cs : List Claim) × (bytes : List UInt8) × ClaimsOf n cs bytes) = ⟨cs', bytes', d'⟩
  | _, _, _, _, _, _, _, .nil, .nil, _, _, _ => rfl
  | _, _, _, _, _, _, _, .cons d ds, .cons d' ds', hr, hr', h => by
    rw [List.append_assoc, List.append_assoc] at h
    cases d.unique d' h
    cases ds.unique ds' hr hr' (List.append_cancel_left h)
    rfl
  | _, _, _, _, _, _, _, .nil, .cons d ds, hr, _, h => (d.not_ahead (h.trans (List.append_assoc ..)) hr).elim
  | _, _, _, _, _, _, _, .cons d ds, .nil, _, hr', h => (d.not_ahead (h.symm.trans (List.append_assoc ..)) hr').elim

end

mutual

theorem TokenOf.unique : ∀ {n : Nat} {cs cs' : List Claim} {es es' : List Entry}
    {bytes bytes' rest rest' : List UInt8} (d : TokenOf n cs es bytes) (d' : TokenOf n cs' es' bytes'),
    bytes ++ rest = bytes' ++ rest' →
    (⟨cs, es, bytes, d⟩ : (cs : List Claim) × (es : List Entry) × (bytes : List UInt8) × TokenOf n cs es bytes) =
      ⟨cs', es', bytes', d'⟩
  | _, _, _, _, _, _, _, _, _, .token d s e, .token d' s' e', h => by
    obtain ⟨-, hbody, rfl, rfl⟩ := e.front e' h
    cases d.unique d' s.head s'.head hbody
    cases s.unique s' (List.append_cancel_left hbody)
    cases Subsingleton.elim e e'
    rfl

theorem SectionOf.unique : ∀ {n : Nat} {es es' : List Entry} {bytes bytes' : List UInt8} (d : SectionOf n es bytes)
    (d' : SectionOf n es' bytes'), bytes = bytes' →
    (⟨es, bytes, d⟩ : (es : List Entry) × (bytes : List UInt8) × SectionOf n es bytes) = ⟨es', bytes', d'⟩
  | _, _, _, _, _, .absent, .absent, _ => rfl
  | _, _, _, _, _, .present d e, .present d' e', h => by
    obtain ⟨-, rfl, rfl, -⟩ := e.front e' (congrArg (· ++ []) h)
    cases d.unique d' rfl
    cases Subsingleton.elim e e'
    rfl
  | _, _, _, _, _, .absent, .present d e, h => (e.ne_nil [] (congrArg (· ++ []) h.symm)).elim
  | _, _, _, _, _, .present d e, .absent, h => (e.ne_nil [] (congrArg (· ++ []) h)).elim

theorem EntriesOf.unique : ∀ {n : Nat} {es es' : List Entry} {bytes bytes' : List UInt8} (d : EntriesOf n es bytes)
    (d' : EntriesOf n es' bytes'), bytes = bytes' →
    (⟨es, bytes, d⟩ : (es : List Entry) × (bytes : List UInt8) × EntriesOf n es bytes) = ⟨es', bytes', d'⟩
  | _, _, _, _, _, .nil, .nil, _ => rfl
  | _, _, _, _, _, .cons d ds, .cons d' ds', h => by
    cases d.unique d' h
    cases ds.unique ds' (List.append_cancel_left h)
    rfl
  | _, _, _, _, _, .nil, .cons d ds, h => (d.ne_nil _ h.symm).elim
  | _, _, _, _, _, .cons d ds, .nil, h => (d.ne_nil _ h).elim

theorem EntryOf.unique : ∀ {n : Nat} {entry entry' : Entry} {bytes bytes' rest rest' : List UInt8}
    (d : EntryOf n entry bytes) (d' : EntryOf n entry' bytes'), bytes ++ rest = bytes' ++ rest' →
    (⟨entry, bytes, d⟩ : (entry : Entry) × (bytes : List UInt8) × EntryOf n entry bytes) = ⟨entry', bytes', d'⟩
  | _, _, _, _, _, _, _, .submodule s d e, .submodule s' d' e', h => by
    obtain ⟨-, hbody, rfl, rfl⟩ := e.front e' h
    cases s.unique s' hbody
    cases d.unique d' (congrArg (· ++ []) (List.append_cancel_left hbody))
    cases Subsingleton.elim e e'
    rfl
  | _, _, _, _, _, _, _, .nested s k hk d e, .nested s' k' hk' d' e', h => by
    obtain ⟨-, hbody, rfl, rfl⟩ := e.front e' h
    rw [List.append_assoc, List.append_assoc] at hbody
    cases s.unique s' hbody
    have hbody := List.append_cancel_left hbody
    cases k.unique k' hbody
    cases d.unique d' (congrArg (· ++ []) (List.append_cancel_left hbody))
    cases Subsingleton.elim e e'
    rfl
  | _, _, _, _, _, _, _, .submodule _ _ e, .nested _ _ _ _ e', h => by cases (e.front e' h).1
  | _, _, _, _, _, _, _, .nested _ _ _ _ e, .submodule _ _ e', h => by cases (e.front e' h).1

end

end ClaimRelay.Binary
