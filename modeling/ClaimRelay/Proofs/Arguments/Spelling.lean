import ClaimRelay.Claim.Spelling
import ClaimRelay.Proofs.Arguments
import ClaimRelay.Proofs.Decimal.Digits

/-!
# Claims as arguments

What is shown of a value is an argument that spells it, but for text, which is put in quotes as it stands. Quotes come
before any other reading, so text in them may look like whatever it likes.
-/

namespace ClaimRelay

/-! ## Spelling -/

/-- The values with a spelling of their own; a double without a fraction is shown as an integer is. -/
def Value.Expressible : Value → Prop
  | .uint v => Int64.maxValue.toInt < v.toNat
  | .double _ | .location _ => False
  | _ => True

instance : DecidablePred Value.Expressible
  | .uint v => inferInstanceAs (Decidable (Int64.maxValue.toInt < v.toNat))
  | .double _ | .location _ => .isFalse id
  | .int _ | .text _ | .bytes _ | .bool _ | .null => .isTrue trivial

def Value.argument : Value → String
  | .text t => "'" ++ t ++ "'"
  | v => v.spelling

def Claim.argument (c : Claim) : String := toString c.label.toInt ++ ":" ++ c.value.argument

/-! ## Integers and bytes read back -/

namespace Argument

theorem digits_toDigits (n : Nat) : Digits Char.isDigit (Nat.toDigits 10 n) :=
  ⟨Nat.toDigits_ne_nil, fun _ hc => Nat.isDigit_of_mem_toDigits (by decide) (by decide) hc⟩

theorem spellsInteger_toString (i : Int) : SpellsInteger (toString i).toList i := by
  rw [Decimal.toList_toString]
  split
  · rename_i hi
    refine ⟨false, Nat.toDigits 10 i.toNat, rfl, digits_toDigits _, ?_⟩
    rw [Nat.ofDigitChars_ten_toDigits]
    exact (Int.toNat_of_nonneg hi).symm
  · refine ⟨true, Nat.toDigits 10 (-i).toNat, rfl, digits_toDigits _, ?_⟩
    rw [Nat.ofDigitChars_ten_toDigits, if_pos rfl]
    omega

theorem spellsLabel_toString (l : Label) : SpellsLabel (toString l.toInt) l :=
  integer?_eq_some.mpr (spellsInteger_toString l.toInt)

theorem hexDigit_digitChar : ∀ v < 16, Text.HexDigit (Nat.digitChar v) v := by
  unfold Text.HexDigit
  decide

theorem hexPair_of (b : UInt8) : HexPair (Nat.digitChar (b.toNat / 16)) (Nat.digitChar (b.toNat % 16)) b := by
  have hb := b.toNat_lt
  have hhigh := hexDigit_digitChar (b.toNat / 16) (by omega)
  have hlow := hexDigit_digitChar (b.toNat % 16) (by omega)
  have hpair := HexPair.digits hhigh hlow
  rwa [Nat.div_add_mod, UInt8.ofNat_toNat] at hpair

theorem hexBytes_hex (bytes : List UInt8) : HexBytes (Text.hex bytes) bytes := by
  induction bytes with
  | nil => exact hexBytes_nil
  | cons b bytes ih => exact hexBytes_cons.mpr ⟨hexPair_of b, ih⟩

/-! ## Claims read back -/

theorem typed_argument {v : Value} (h : v.Expressible) : Typed v.argument.toList v := by
  cases v with
  | int v => exact .int (spellsInteger_toString v.toInt)
  | uint v => exact .uint (spellsInteger_toString v.toNat) h
  | double _ | location _ => exact h.elim
  | text t =>
    have hquoted : (Value.text t).argument.toList = quoted t.toList := by
      simp [Value.argument, quoted, String.toList_append]
    have htyped := Typed.quoted t.toList
    rw [String.ofList_toList] at htyped
    rwa [hquoted]
  | bytes v =>
    have hquoted : (Value.bytes v).argument.toList = bytesQuoted (Text.hex v) := by
      simp [Value.argument, Value.spelling, bytesQuoted, String.toList_append]
    rw [hquoted]
    exact .bytes (hexBytes_hex v)
  | bool b =>
    cases b with
    | false => exact .false
    | true => exact .true
  | null => exact .null

theorem claim_argument {c : Claim} (h : c.value.Expressible) : claim c.argument = .ok c := by
  have hchars : c.argument.toList = (toString c.label.toInt).toList ++ ':' :: c.value.argument.toList := by
    simp [Claim.argument, String.toList_append]
  rw [claim_eq (spellsLabel_toString c.label) hchars, value_eq_ok.mpr (typed_argument h)]
  rfl

/-- The values of arguments are these, and doubles. -/
theorem Typed.expressible {cs : List Char} {v : Value} (h : Typed cs v) : v.Expressible ∨ ∃ x, v = .double x := by
  cases h with
  | uint _ hv => exact .inl hv
  | double => exact .inr ⟨_, rfl⟩
  | true | false | null | bytes | quoted | int | text => exact .inl trivial

theorem claim_respelled {argument : String} {c : Claim} (h : claim argument = .ok c) :
    (∃ x, c.value = .double x) ∨ claim c.argument = .ok c := by
  obtain ⟨cs, hv⟩ := claim_value h
  rcases (value_eq_ok.mp hv).expressible with hexpressible | hdouble
  · exact .inr (claim_argument hexpressible)
  · exact .inl hdouble

end Argument

/-! ## Arguments together -/

namespace Arguments

theorem mapM_argument {cs : List Claim} (h : ∀ c ∈ cs, c.value.Expressible) :
    (cs.map Claim.argument).mapM Argument.claim = .ok cs := by
  induction cs with
  | nil => rfl
  | cons c cs ih =>
    obtain ⟨hc, hcs⟩ := List.forall_mem_cons.mp h
    exact Binary.mapM_cons_eq_ok.mpr ⟨c, cs, Argument.claim_argument hc, ih hcs, rfl⟩

theorem mapM_first_error {ε α β : Type} {f : α → Except ε β} {as : List α} (h : ∃ a ∈ as, ∃ e, f a = .error e) :
    ∃ before a after e, as = before ++ a :: after ∧ (∀ b ∈ before, ∃ c, f b = .ok c) ∧ f a = .error e ∧
      as.mapM f = .error e := by
  induction as with
  | nil =>
    obtain ⟨a, ha, -⟩ := h
    cases ha
  | cons a as ih =>
    cases hfirst : f a with
    | error e =>
      refine ⟨[], a, as, e, rfl, List.forall_mem_nil _, hfirst, ?_⟩
      rw [List.mapM_cons, hfirst]
      rfl
    | ok c =>
      have hlater : ∃ a ∈ as, ∃ e, f a = .error e := by
        obtain ⟨b, hb, e, he⟩ := h
        obtain rfl | hb := List.mem_cons.mp hb
        · rw [hfirst] at he
          cases he
        · exact ⟨b, hb, e, he⟩
      obtain ⟨before, b, after, e, rfl, hbefore, he, hmap⟩ := ih hlater
      refine ⟨a :: before, b, after, e, rfl, List.forall_mem_cons.mpr ⟨⟨c, hfirst⟩, hbefore⟩, he, ?_⟩
      rw [List.mapM_cons, hfirst, hmap]
      rfl

/-- **Claims as arguments.** Spelled one by one they are read back as they were, and are what is served; the first
argument that is refused refuses all. -/
theorem parse_spelled :
    (∀ cs : List Claim, (∀ c ∈ cs, c.value.Expressible) → parse (cs.map Claim.argument) = .ok { claims := cs } ∧
      reader.Serves ⟨cs, []⟩ { claims := cs } { claims := cs, claimsRead := cs.length }) ∧
    (∀ arguments : List String, (∃ a ∈ arguments, ∃ e, Argument.claim a = .error e) →
      ∃ before a after e, arguments = before ++ a :: after ∧ (∀ b ∈ before, ∃ c, Argument.claim b = .ok c) ∧
        Argument.claim a = .error e ∧ parse arguments = .error e) := by
  refine ⟨fun cs hcs => ⟨?_, serves cs⟩, fun arguments h => ?_⟩
  · unfold parse
    rw [mapM_argument hcs]
    rfl
  · obtain ⟨before, a, after, e, harguments, hbefore, ha, hmap⟩ := mapM_first_error h
    refine ⟨before, a, after, e, harguments, hbefore, ha, ?_⟩
    unfold parse
    rw [hmap]
    rfl

theorem parse_spelled_samples :
    parse ["1:'h'0a''", "-2:'a:'\n'", "3:9223372036854775808", "4:h'00ff'"] = .ok { claims :=
      [⟨1, .text "h'0a'"⟩, ⟨-2, .text "a:'\n"⟩, ⟨3, .uint 9223372036854775808⟩, ⟨4, .bytes [0, 255]⟩] } ∧
    ∃ before a after e, ["1:null", "1:h'0'", "null"] = before ++ a :: after ∧
      (∀ b ∈ before, ∃ c, Argument.claim b = .ok c) ∧ Argument.claim a = .error e ∧
      parse ["1:null", "1:h'0'", "null"] = .error e := by
  obtain ⟨hspelled, hrefused⟩ := parse_spelled
  refine ⟨(hspelled [⟨1, .text "h'0a'"⟩, ⟨-2, .text "a:'\n"⟩, ⟨3, .uint 9223372036854775808⟩, ⟨4, .bytes [0, 255]⟩]
    (by decide)).1, hrefused _ ⟨"1:h'0'", .tail _ (.head _), .invalidHex "1:h'0'", rfl⟩⟩

end Arguments

end ClaimRelay
