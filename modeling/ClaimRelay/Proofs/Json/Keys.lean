import ClaimRelay.Json.TextWriter
import ClaimRelay.Proofs.Decimal.Digits
import ClaimRelay.Proofs.Writer.Delivering

/-!
# Keys

Labels become keys by their decimal digits, so that two labels are one key only if they are one label, and none
is the key of the entries. A claim set has no key twice when no label and no name of an entry is repeated.
-/

namespace ClaimRelay

/-! ## Keys of claims -/

def Claim.key (c : Claim) : String := toString c.label.toInt

theorem Claim.label_of_key {c d : Claim} (h : c.key = d.key) : c.label = d.label :=
  Int64.toInt_inj.mp (Decimal.toString_injective h)

theorem Claim.key_ne_entriesKey (c : Claim) : c.key ≠ Json.entriesKey := by
  intro h
  have hchars := congrArg String.toList h
  rw [Claim.key, Decimal.toList_toString] at hchars
  by_cases hi : 0 ≤ c.label.toInt
  · rw [if_pos hi] at hchars
    have hs : 's' ∈ Nat.toDigits 10 c.label.toInt.toNat := by
      rw [hchars]
      decide
    exact Decimal.not_mem_toDigits rfl _ hs
  · rw [if_neg hi] at hchars
    cases hchars

theorem Claim.mem_keys {c : Claim} {cs : List Claim} : c.key ∈ cs.map Claim.key ↔ c.label ∈ cs.map Claim.label := by
  simp only [List.mem_map]
  constructor
  · rintro ⟨d, hd, h⟩
    exact ⟨d, hd, label_of_key h⟩
  · rintro ⟨d, hd, h⟩
    exact ⟨d, hd, by rw [Claim.key, Claim.key, h]⟩

theorem Claim.keys_nodup {cs : List Claim} : (cs.map Claim.key).Nodup ↔ (cs.map Claim.label).Nodup := by
  induction cs with
  | nil => exact iff_of_true .nil .nil
  | cons c cs ih => rw [List.map_cons, List.map_cons, List.nodup_cons, List.nodup_cons, ih, Claim.mem_keys]

/-! ## Claim sets without a key twice -/

mutual

def Entry.Distinct : Entry → Prop
  | .submodule _ claims entries =>
    (claims.map Claim.label).Nodup ∧ (entries.map Entry.name).Nodup ∧ Entry.AllDistinct entries
  | .token _ => True

def Entry.AllDistinct : List Entry → Prop
  | [] => True
  | e :: rest => e.Distinct ∧ Entry.AllDistinct rest

end

mutual

def Entry.decideDistinct : (e : Entry) → Decidable e.Distinct
  | .submodule _ claims entries =>
    have := Entry.decideAllDistinct entries
    inferInstanceAs (Decidable ((claims.map Claim.label).Nodup ∧ (entries.map Entry.name).Nodup ∧
      Entry.AllDistinct entries))
  | .token _ => .isTrue trivial

def Entry.decideAllDistinct : (es : List Entry) → Decidable (Entry.AllDistinct es)
  | [] => .isTrue trivial
  | e :: rest =>
    have := Entry.decideDistinct e
    have := Entry.decideAllDistinct rest
    inferInstanceAs (Decidable (e.Distinct ∧ Entry.AllDistinct rest))

end

/-- Whether no label and no name of an entry is repeated at its level. -/
def ClaimSet.Distinct (m : ClaimSet) : Prop :=
  (m.claims.map Claim.label).Nodup ∧ (m.entries.map Entry.name).Nodup ∧ Entry.AllDistinct m.entries

instance (m : ClaimSet) : Decidable m.Distinct :=
  have := Entry.decideAllDistinct m.entries
  inferInstanceAs (Decidable ((m.claims.map Claim.label).Nodup ∧ (m.entries.map Entry.name).Nodup ∧
    Entry.AllDistinct m.entries))

namespace Json.TextWriter

def reasons : Writer.Reasons where
  claim before c := if c.label ∈ before.map Claim.label then some (.structural (.repeatedKey c.key)) else none
  name before name := if name ∈ before then some (.structural (.repeatedKey name)) else none

theorem reasons_claim_eq_none {before : List Claim} {c : Claim} :
    reasons.claim before c = none ↔ c.label ∉ before.map Claim.label := by
  simp [reasons]

theorem reasons_name_eq_none {before : List String} {name : String} :
    reasons.name before name = none ↔ name ∉ before := by
  simp [reasons]

theorem reasons_claim_eq_some {before : List Claim} {c : Claim} {e : Error} : reasons.claim before c = some e ↔
    c.label ∈ before.map Claim.label ∧ .structural (.repeatedKey c.key) = e := by
  simp [reasons]

theorem reasons_name_eq_some {before : List String} {name : String} {e : Error} :
    reasons.name before name = some e ↔ name ∈ before ∧ .structural (.repeatedKey name) = e := by
  simp [reasons]

theorem error_of_fault {limit : Nat} {item : Item} {e : Error} (h : reasons.fault limit item = some e) :
    e = .tooDeep limit ∨ ∃ key, e = .structural (.repeatedKey key) := by
  cases item with
  | claim before c => exact .inr ⟨_, (reasons_claim_eq_some.mp h).2.symm⟩
  | token before name => exact .inr ⟨_, (reasons_name_eq_some.mp h).2.symm⟩
  | submodule depth before name =>
    simp only [Writer.Reasons.fault] at h
    split at h
    · exact .inl (Option.some.inj h).symm
    · exact .inr ⟨_, (reasons_name_eq_some.mp h).2.symm⟩

theorem nodup_concat {α : Type} {xs : List α} {a : α} : (xs ++ [a]).Nodup ↔ xs.Nodup ∧ a ∉ xs := by
  rw [List.nodup_append]
  constructor
  · rintro ⟨hx, -, hd⟩
    exact ⟨hx, fun hm => hd a hm a (.head _) rfl⟩
  · rintro ⟨hx, hm⟩
    refine ⟨hx, List.nodup_cons.mpr ⟨List.not_mem_nil, List.nodup_nil⟩, fun b hb c hc he => hm ?_⟩
    rwa [← List.mem_singleton.mp hc, ← he]

theorem allowsClaims_iff (before cs : List Claim) (hb : (before.map Claim.label).Nodup) :
    reasons.AllowsClaims before cs ↔ ((before ++ cs).map Claim.label).Nodup := by
  induction cs generalizing before with
  | nil => exact iff_of_true trivial (by rwa [List.append_nil])
  | cons c cs ih =>
    have hnew : ((before ++ [c]).map Claim.label).Nodup ↔ c.label ∉ before.map Claim.label := by
      rw [List.map_append, List.map_singleton, nodup_concat]
      exact and_iff_right hb
    rw [Writer.Reasons.AllowsClaims, reasons_claim_eq_none, List.append_cons before c cs]
    constructor
    · rintro ⟨hc, hrest⟩
      exact (ih _ (hnew.mpr hc)).mp hrest
    · intro h
      have hfront : ((before ++ [c]).map Claim.label).Nodup := by
        rw [List.map_append] at h
        exact (List.nodup_append.mp h).1
      exact ⟨hnew.mp hfront, (ih _ hfront).mpr h⟩

mutual

theorem allowsEntry_iff : ∀ e : Entry, reasons.AllowsEntry e ↔ e.Distinct
  | .submodule name cs es => by
    rw [Writer.Reasons.AllowsEntry, Entry.Distinct, allowsClaims_iff [] cs List.nodup_nil,
      allowsEntries_iff es List.nodup_nil]
    rfl
  | .token t => Iff.rfl

theorem allowsEntries_iff : ∀ (es : List Entry) {before : List String}, before.Nodup →
    (reasons.AllowsEntries before es ↔ (before ++ es.map Entry.name).Nodup ∧ Entry.AllDistinct es)
  | [], before, hb => iff_of_true trivial ⟨by rwa [List.map_nil, List.append_nil], trivial⟩
  | e :: rest, before, hb => by
    rw [Writer.Reasons.AllowsEntries, Entry.AllDistinct, reasons_name_eq_none, allowsEntry_iff e, List.map_cons,
      List.append_cons before e.name (rest.map Entry.name)]
    constructor
    · rintro ⟨hn, he, hrest⟩
      obtain ⟨hnames, hrest⟩ := (allowsEntries_iff rest (nodup_concat.mpr ⟨hb, hn⟩)).mp hrest
      exact ⟨hnames, he, hrest⟩
    · rintro ⟨hnames, he, hrest⟩
      have hfront := (List.nodup_append.mp hnames).1
      exact ⟨(nodup_concat.mp hfront).2, he, (allowsEntries_iff rest hfront).mpr ⟨hnames, hrest⟩⟩

end

theorem allows_iff (m : ClaimSet) : reasons.Allows m ↔ m.Distinct := by
  rw [Writer.Reasons.Allows, allowsClaims_iff [] m.claims List.nodup_nil, allowsEntries_iff m.entries List.nodup_nil]
  rfl

end Json.TextWriter

end ClaimRelay
