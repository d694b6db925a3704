import ClaimRelay.Proofs.Arguments.Numbers

/-!
# The parts of an argument

A label is a decimal and holds no colon, so the first colon ends it. What is quoted ends with the last
character, whatever quotes it holds. What is neither a word nor in quotes is a number by its shape, or text.
-/

namespace ClaimRelay

namespace Argument

/-! ## Labels -/

/-- The decimal spells the label; every argument that is taken starts with one. -/
def SpellsLabel (label : String) (l : Label) : Prop := integer? label.toList = some l.toInt

theorem isInt64_iff {v : Int} : isInt64 v = true ↔ Int64.minValue.toInt ≤ v ∧ v ≤ Int64.maxValue.toInt := by
  unfold isInt64
  rw [Bool.and_eq_true, decide_eq_true_iff, decide_eq_true_iff]

theorem isInt64_toInt (l : Int64) : isInt64 l.toInt = true := isInt64_iff.mpr ⟨l.minValue_le_toInt, l.toInt_le⟩

theorem colon_not_mem {cs : List Char} {v : Int} (h : integer? cs = some v) : ':' ∉ cs := by
  obtain ⟨negative, ds, rfl, hd, -⟩ := integer?_eq_some.mp h
  have hdigits : ':' ∉ ds := fun hc => by cases hd.2 ':' hc
  cases negative with
  | true => exact List.not_mem_cons_of_ne_of_not_mem (by decide) hdigits
  | false => exact hdigits

/-- The first colon ends the label; those after it are of the value. -/
theorem claim_eq {label : String} {l : Label} (h : SpellsLabel label l) {argument : String} {rest : List Char}
    (ha : argument.toList = label.toList ++ ':' :: rest) :
    claim argument = (value argument rest).map (⟨l, ·⟩) := by
  have hlabel : integer? label.toList = some l.toInt := h
  have hbefore : ∀ c ∈ label.toList, (c != ':') = true :=
    fun c hc => bne_iff_ne.mpr fun hcolon => colon_not_mem hlabel (hcolon ▸ hc)
  have hcolon : ∀ c ∈ (':' :: rest).head?, (c != ':') = false := by
    rintro _ ⟨⟩
    rfl
  unfold claim
  rw [ha, span_append hbefore hcolon]
  simp only [hlabel, isInt64_toInt, if_pos, Int64.ofInt_toInt]
  cases value argument rest <;> rfl

/-! ## Quotes -/

theorem between?_append (opening body : List Char) :
    between? opening (opening ++ (body ++ ['\''])) = some body := by
  have hopens : opening.isPrefixOf (opening ++ (body ++ ['\''])) = true :=
    List.isPrefixOf_iff_prefix.mpr (List.prefix_append _ _)
  unfold between?
  rw [if_pos ⟨hopens, by simp, by simp⟩, List.drop_left, List.dropLast_concat]

/-! ## Words, quotes and the rest -/

/-- The words are known by their first letters. -/
theorem not_word {cs : List Char} {c : Char} (hc : cs.head? = some c) (h : c ∉ ['t', 'f', 'n']) :
    cs ∉ ["true".toList, "false".toList, "null".toList] := by
  intro hword
  simp only [List.mem_cons, List.not_mem_nil, or_false, not_or] at hword h
  obtain ⟨ht, hf, hn⟩ := h
  rcases hword with rfl | rfl | rfl
  · exact ht (Option.some.inj hc).symm
  · exact hf (Option.some.inj hc).symm
  · exact hn (Option.some.inj hc).symm

def orRefused (argument : String) : Option Value → Except ArgumentError Value
  | some v => .ok v
  | none => .error (.invalidClaim argument)

/-- The value of what is neither a word nor in quotes. -/
def bareValue (argument : String) (cs : List Char) : Except ArgumentError Value :=
  if looksInteger cs then orRefused argument (integerValue? cs)
  else match splitFraction? (splitSign cs).2 with
    | some f => orRefused argument ((f.nearest? (splitSign cs).1).map .double)
    | none => .ok (.text (String.ofList cs))

theorem value_eq {argument : String} {cs : List Char} (h : cs ∉ ["true".toList, "false".toList, "null".toList]) :
    value argument cs =
      match between? ['h', '\''] cs with
      | some body =>
        match hexBytes? body with
        | some bytes => .ok (.bytes bytes)
        | none => .error (.invalidHex argument)
      | none =>
        match between? ['\''] cs with
        | some body => .ok (.text (String.ofList body))
        | none => bareValue argument cs := by
  simp only [List.mem_cons, List.not_mem_nil, or_false, not_or] at h
  obtain ⟨htrue, hfalse, hnull⟩ := h
  unfold value bareValue
  rw [if_neg htrue, if_neg hfalse, if_neg hnull]
  cases between? ['h', '\''] cs with
  | some body => cases hbytes : hexBytes? body <;> simp only [hbytes] <;> rfl
  | none =>
    cases between? ['\''] cs with
    | some body => rfl
    | none =>
      by_cases hlooks : looksInteger cs = true
      · simp only [if_pos hlooks]
        cases integerValue? cs <;> rfl
      · simp only [if_neg hlooks]
        cases splitFraction? (splitSign cs).2 with
        | none => rfl
        | some f => cases hf : f.nearest? (splitSign cs).1 <;> simp only [hf] <;> rfl

end Argument

end ClaimRelay
