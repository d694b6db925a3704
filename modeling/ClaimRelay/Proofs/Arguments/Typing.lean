import ClaimRelay.Proofs.Arguments.Hex
import ClaimRelay.Proofs.Arguments.Numbers

/-!
# How values are typed

A value has its type by its spelling, and each spelling has one: three words, bytes and text in quotes, integers,
fractions, and text for all that is left. Integers out of range are refused, and so are numbers whose digits are not
all ASCII, which are no text either.
-/

namespace ClaimRelay.Argument

/-! ## Spellings and their types -/

def bytesQuoted (body : List Char) : List Char := 'h' :: '\'' :: (body ++ ['\''])

def quoted (body : List Char) : List Char := '\'' :: (body ++ ['\''])

/-- Neither a word nor in quotes. -/
structure Bare (cs : List Char) : Prop where
  word : cs ∉ ["true".toList, "false".toList, "null".toList]
  bytes (body : List Char) : cs ≠ bytesQuoted body
  text (body : List Char) : cs ≠ quoted body

/-- Whether a number is spelled, its digits all of the kind. -/
def Numeral (digit : Char → Bool) (cs : List Char) : Prop := ∃ negative f, NumberOf digit cs negative f

inductive Typed : List Char → Value → Prop
  | true : Typed "true".toList (.bool true)
  | false : Typed "false".toList (.bool false)
  | null : Typed "null".toList .null
  | bytes {body : List Char} {bytes : List UInt8} (h : HexBytes body bytes) : Typed (bytesQuoted body) (.bytes bytes)
  | quoted (body : List Char) : Typed (quoted body) (.text (String.ofList body))
  | int {cs : List Char} {v : Int64} (h : SpellsInteger cs v.toInt) : Typed cs (.int v)
  | uint {cs : List Char} {v : UInt64} (h : SpellsInteger cs v.toNat) (hv : Int64.maxValue.toInt < v.toNat) :
    Typed cs (.uint v)
  | double {cs : List Char} {negative : Bool} {f : Fraction} (h : NumberOf Char.isDigit cs negative f)
    (hi : ¬∃ v, SpellsInteger cs v) : Typed cs (.double (Decimal.nearest negative f.decimal))
  | text {cs : List Char} (hb : Bare cs) (hn : ¬Numeral Text.isDecimalDigit cs) : Typed cs (.text (String.ofList cs))

/-- An integer that is less than all signed ones or more than all unsigned ones. -/
def OutOfRange (cs : List Char) : Prop :=
  ∃ v, SpellsInteger cs v ∧ (v < Int64.minValue.toInt ∨ (UInt64.size : Int) ≤ v)

/-- A number with a digit that is not ASCII. -/
def ForeignNumber (cs : List Char) : Prop := Numeral Text.isDecimalDigit cs ∧ ¬Numeral Char.isDigit cs

/-! ## One kind of spelling after the other -/

section
variable {argument : String} {cs : List Char}

theorem between?_eq_some {opening body : List Char} :
    between? opening cs = some body ↔ cs = opening ++ (body ++ ['\'']) := by
  constructor
  · intro h
    unfold between? at h
    split at h
    · rename_i hquoted
      obtain ⟨hopen, hlonger, hlast⟩ := hquoted
      obtain ⟨rest, rfl⟩ := List.isPrefixOf_iff_prefix.mp hopen
      have hrest : rest ≠ [] := by
        rintro rfl
        rw [List.append_nil] at hlonger
        exact Nat.lt_irrefl _ hlonger
      rw [List.getLast?_append_of_ne_nil opening hrest] at hlast
      rw [List.drop_left] at h
      rw [← Option.some.inj h, List.dropLast_append_getLast? _ hlast]
    · cases h
  · rintro rfl
    exact between?_append opening body

theorem NumberOf.bare {negative : Bool} {f : Fraction} (h : NumberOf Text.isDecimalDigit cs negative f) : Bare cs := by
  obtain ⟨c, hc, hnumber⟩ := h.head
  have hletter : c ∉ ['t', 'f', 'n'] := by
    intro hletter
    simp only [List.mem_cons, List.not_mem_nil, or_false] at hletter
    rcases hletter with rfl | rfl | rfl <;> exact absurd hnumber (by decide)
  have hhead : ∀ d, ¬(Text.isDecimalDigit d = true ∨ d = '.' ∨ d = '-') → cs.head? ≠ some d := by
    intro d hd hcs
    cases Option.some.inj (hc.symm.trans hcs)
    exact hd hnumber
  refine ⟨not_word hc hletter, fun body => ?_, fun body => ?_⟩
  · rintro rfl
    exact hhead 'h' (by decide) rfl
  · rintro rfl
    exact hhead '\'' (by decide) rfl

theorem Bare.between? (h : Bare cs) : between? ['h', '\''] cs = none ∧ between? ['\''] cs = none := by
  refine ⟨?_, ?_⟩ <;> rw [Option.eq_none_iff_forall_ne_some] <;> intro body hbody
  · exact h.bytes body (between?_eq_some.mp hbody)
  · exact h.text body (between?_eq_some.mp hbody)

theorem value_bare (h : Bare cs) : value argument cs = bareValue argument cs := by
  rw [value_eq h.word, h.between?.1, h.between?.2]

theorem value_integer {v : Int} (h : SpellsInteger cs v) : value argument cs =
    if isInt64 v then .ok (.int (Int64.ofInt v))
    else if 0 ≤ v ∧ v < UInt64.size then .ok (.uint (UInt64.ofNat v.toNat))
    else .error (.invalidClaim argument) := by
  have hlooks : looksInteger cs = true := by
    obtain ⟨negative, ds, hcs, hd, -⟩ := h
    exact looksInteger_iff.mpr ⟨negative, ds, hcs, hd.mono⟩
  obtain ⟨negative, f, hnumber⟩ := h.number
  rw [value_bare hnumber.mono.bare]
  unfold bareValue integerValue?
  rw [if_pos hlooks, integer?_eq_some.mpr h]
  simp only [Option.bind_eq_bind, Option.bind_some]
  split
  · rfl
  · split <;> rfl

theorem value_fraction {negative : Bool} {f : Fraction} (h : NumberOf Char.isDigit cs negative f)
    (hi : ¬∃ v, SpellsInteger cs v) : value argument cs = .ok (.double (Decimal.nearest negative f.decimal)) := by
  have hlooks : ¬looksInteger cs = true := fun hlooks => hi (spellsInteger_of_looksInteger h hlooks)
  obtain ⟨rfl, hsplit⟩ := numberOf_iff.mp h.mono
  have hnearest : f.nearest? (splitSign cs).1 = some (Decimal.nearest (splitSign cs).1 f.decimal) := by
    obtain ⟨_, -, hf⟩ := h
    exact nearest?_eq_some.mpr ⟨hf.digits, hf.exponent (by decide), rfl⟩
  rw [value_bare h.mono.bare]
  unfold bareValue
  rw [if_neg hlooks, hsplit]
  simp only [hnearest]
  rfl

theorem value_foreign (h : ForeignNumber cs) : value argument cs = .error (.invalidClaim argument) := by
  obtain ⟨⟨negative, f, hnumber⟩, hforeign⟩ := h
  have hinteger : integer? cs = none :=
    Option.eq_none_iff_forall_ne_some.mpr fun v hv => hforeign (integer?_eq_some.mp hv).number
  obtain ⟨hsign, hsplit⟩ := numberOf_iff.mp hnumber
  have hnearest : f.nearest? (splitSign cs).1 = none := by
    rw [Option.eq_none_iff_forall_ne_some]
    intro x hx
    obtain ⟨hdigits, hexponent, -⟩ := nearest?_eq_some.mp hx
    obtain ⟨ds, hcs, hf⟩ := hnumber
    exact hforeign ⟨negative, f, ds, hcs, hf.of_digits hdigits hexponent⟩
  rw [value_bare hnumber.bare]
  unfold bareValue integerValue?
  rw [hinteger, hsplit]
  simp only [hnearest]
  split <;> rfl

theorem value_text (hb : Bare cs) (hn : ¬Numeral Text.isDecimalDigit cs) :
    value argument cs = .ok (.text (String.ofList cs)) := by
  have hlooks : ¬looksInteger cs = true := by
    intro hlooks
    obtain ⟨negative, ds, rfl, hd⟩ := looksInteger_iff.mp hlooks
    exact hn ⟨_, _, numberOf_digits hd negative⟩
  have hsplit : splitFraction? (splitSign cs).2 = none :=
    Option.eq_none_iff_forall_ne_some.mpr fun f hf => hn ⟨_, f, numberOf_iff.mpr ⟨rfl, hf⟩⟩
  rw [value_bare hb]
  unfold bareValue
  rw [if_neg hlooks, hsplit]

theorem value_quoted (body : List Char) : value argument (quoted body) = .ok (.text (String.ofList body)) := by
  have hbytes : between? ['h', '\''] (quoted body) = none := by
    rw [Option.eq_none_iff_forall_ne_some]
    intro other hother
    cases between?_eq_some.mp hother
  have hbody : between? ['\''] (quoted body) = some body := between?_append ['\''] body
  rw [value_eq (not_word rfl (by decide)), hbytes, hbody]

/-! ## All spellings -/

/-- What is out of range has no place among the signed integers, nor among the unsigned ones. -/
theorem no_place_iff {v : Int} : v < Int64.minValue.toInt ∨ (UInt64.size : Int) ≤ v ↔
    ¬isInt64 v = true ∧ ¬(0 ≤ v ∧ v < UInt64.size) := by
  have hmin : Int64.minValue.toInt = -9223372036854775808 := rfl
  have hmax : Int64.maxValue.toInt = 9223372036854775807 := rfl
  have hsize : UInt64.size = 18446744073709551616 := rfl
  rw [isInt64_iff]
  omega

theorem value_of_typed {v : Value} (h : Typed cs v) : value argument cs = .ok v := by
  cases h with
  | true | false | null => rfl
  | @bytes body _ h =>
    have hvalue := value_hex argument body
    rw [hexBytes?_eq_some.mpr h] at hvalue
    exact hvalue
  | quoted body => exact value_quoted body
  | int h => rw [value_integer h, if_pos (isInt64_toInt _), Int64.ofInt_toInt]
  | @uint _ v h hv =>
    have hlarge : ¬isInt64 v.toNat = true := fun hint => Int.not_lt.mpr (isInt64_iff.mp hint).2 hv
    have hsize : (v.toNat : Int) < UInt64.size := Int.ofNat_lt.mpr v.toNat_lt
    rw [value_integer h, if_neg hlarge, if_pos ⟨Int.natCast_nonneg _, hsize⟩, Int.toNat_natCast, UInt64.ofNat_toNat]
  | double h hi => exact value_fraction h hi
  | text hb hn => exact value_text hb hn

/-- What becomes of a spelling: its value has its type, or it is refused for what is spelled. -/
inductive Outcome (argument : String) (cs : List Char) : Except ArgumentError Value → Prop
  | typed {v : Value} (h : Typed cs v) : Outcome argument cs (.ok v)
  | notHex {body : List Char} (hcs : cs = bytesQuoted body) (h : ¬∃ bytes, HexBytes body bytes) :
    Outcome argument cs (.error (.invalidHex argument))
  | noPlace (h : OutOfRange cs ∨ ForeignNumber cs) : Outcome argument cs (.error (.invalidClaim argument))

theorem integer_outcome {v : Int} (h : SpellsInteger cs v) : Outcome argument cs (value argument cs) := by
  rw [value_integer h]
  by_cases hint : isInt64 v = true
  · obtain ⟨hlow, hhigh⟩ := isInt64_iff.mp hint
    have hv : (Int64.ofInt v).toInt = v := Int64.toInt_ofInt_of_le hlow (Int.lt_of_le_of_lt hhigh (by decide))
    rw [if_pos hint]
    exact .typed (.int (hv.symm ▸ h))
  by_cases huint : 0 ≤ v ∧ v < UInt64.size
  · have hv : ((UInt64.ofNat v.toNat).toNat : Int) = v := by
      rw [UInt64.toNat_ofNat_of_lt' (by omega), Int.toNat_of_nonneg huint.1]
    have hlarge : Int64.maxValue.toInt < v := by
      refine Int.not_le.mp fun hle => hint ?_
      exact isInt64_iff.mpr ⟨Int.le_trans (by decide) huint.1, hle⟩
    rw [if_neg hint, if_pos huint]
    exact .typed (.uint (hv.symm ▸ h) (hv.symm ▸ hlarge))
  · rw [if_neg hint, if_neg huint]
    exact .noPlace (.inl ⟨v, h, no_place_iff.mpr ⟨hint, huint⟩⟩)

theorem value_outcome (argument : String) (cs : List Char) : Outcome argument cs (value argument cs) := by
  by_cases hword : cs ∈ ["true".toList, "false".toList, "null".toList]
  · simp only [List.mem_cons, List.not_mem_nil, or_false] at hword
    rcases hword with rfl | rfl | rfl
    · exact .typed .true
    · exact .typed .false
    · exact .typed .null
  by_cases hbytes : ∃ body, cs = bytesQuoted body
  · obtain ⟨body, rfl⟩ := hbytes
    have hvalue : value argument (bytesQuoted body) = _ := value_hex argument body
    rw [hvalue]
    cases hbody : hexBytes? body with
    | some bytes => exact .typed (.bytes (hexBytes?_eq_some.mp hbody))
    | none =>
      refine .notHex rfl fun h => ?_
      obtain ⟨bytes, hbytes⟩ := h
      rw [hexBytes?_eq_some.mpr hbytes] at hbody
      cases hbody
  by_cases htext : ∃ body, cs = quoted body
  · obtain ⟨body, rfl⟩ := htext
    rw [value_quoted]
    exact .typed (.quoted body)
  have hb : Bare cs := ⟨hword, not_exists.mp hbytes, not_exists.mp htext⟩
  by_cases hn : Numeral Text.isDecimalDigit cs
  · by_cases ha : Numeral Char.isDigit cs
    · by_cases hi : ∃ v, SpellsInteger cs v
      · obtain ⟨v, hv⟩ := hi
        exact integer_outcome hv
      · obtain ⟨negative, f, hnumber⟩ := ha
        rw [value_fraction hnumber hi]
        exact .typed (.double hnumber hi)
    · rw [value_foreign ⟨hn, ha⟩]
      exact .noPlace (.inr ⟨hn, ha⟩)
  · rw [value_text hb hn]
    exact .typed (.text hb hn)

theorem value_eq_ok {v : Value} : value argument cs = .ok v ↔ Typed cs v := by
  refine ⟨fun hv => ?_, value_of_typed⟩
  have houtcome := value_outcome argument cs
  rw [hv] at houtcome
  cases houtcome with
  | typed h => exact h

theorem value_outOfRange (h : OutOfRange cs) : value argument cs = .error (.invalidClaim argument) := by
  obtain ⟨v, hv, hrange⟩ := h
  obtain ⟨hint, huint⟩ := no_place_iff.mp hrange
  rw [value_integer hv, if_neg hint, if_neg huint]

theorem value_eq_error {e : ArgumentError} (hs : ∀ body, cs ≠ bytesQuoted body) :
    value argument cs = .error e ↔ e = .invalidClaim argument ∧ (OutOfRange cs ∨ ForeignNumber cs) := by
  constructor
  · intro hv
    have houtcome := value_outcome argument cs
    rw [hv] at houtcome
    cases houtcome with
    | notHex hcs => exact absurd hcs (hs _)
    | noPlace h => exact ⟨rfl, h⟩
  · rintro ⟨rfl, h | h⟩
    · exact value_outOfRange h
    · exact value_foreign h

theorem Numeral.ascii (h : Numeral Text.isDecimalDigit cs)
    (ha : ∀ c ∈ cs, Text.isDecimalDigit c = true → c.isDigit = true) : Numeral Char.isDigit cs := by
  obtain ⟨negative, f, h⟩ := h
  exact ⟨negative, f, h.ascii ha⟩

end

/-- **Types by spelling.** With any label, and with any value that is not in quotes for bytes: it has the type of its
spelling, and is refused if it is an integer out of range, or else a number whose digits are not all ASCII. -/
theorem claim_typed {label : String} {l : Label} (hl : SpellsLabel label l) {spelling : String}
    (hs : ∀ body, spelling.toList ≠ bytesQuoted body) :
    (∀ c, claim (label ++ ":" ++ spelling) = .ok c ↔ ∃ v, Typed spelling.toList v ∧ c = ⟨l, v⟩) ∧
    (∀ e, claim (label ++ ":" ++ spelling) = .error e ↔ e = .invalidClaim (label ++ ":" ++ spelling) ∧
      (OutOfRange spelling.toList ∨ ForeignNumber spelling.toList)) ∧
    ((∀ d ∈ spelling.toList, Text.isDecimalDigit d = true → d.isDigit = true) →
      ∀ e, claim (label ++ ":" ++ spelling) = .error e ↔
        e = .invalidClaim (label ++ ":" ++ spelling) ∧ OutOfRange spelling.toList) := by
  have hchars : (label ++ ":" ++ spelling).toList = label.toList ++ ':' :: spelling.toList := by
    simp [String.toList_append]
  have hclaim := claim_eq hl hchars
  generalize label ++ ":" ++ spelling = argument at hclaim
  have herror : ∀ e, claim argument = .error e ↔
      e = .invalidClaim argument ∧ (OutOfRange spelling.toList ∨ ForeignNumber spelling.toList) := by
    intro e
    rw [hclaim, ← value_eq_error hs]
    cases value argument spelling.toList <;> simp [Except.map]
  refine ⟨fun c => ?_, herror, fun hascii e => ?_⟩
  · rw [hclaim]
    simp only [← @value_eq_ok argument]
    cases value argument spelling.toList <;> simp [Except.map, eq_comm]
  · rw [herror]
    have hforeign : ¬ForeignNumber spelling.toList := fun h => h.2 (h.1.ascii hascii)
    exact and_congr_right fun _ => or_iff_left hforeign

theorem claim_typed_samples : SpellsLabel "-3" (-3) ∧
    (∀ body, "9223372036854775808".toList ≠ bytesQuoted body) ∧
    (∀ body, "18446744073709551616".toList ≠ bytesQuoted body) ∧
    (∀ d ∈ "18446744073709551616".toList, Text.isDecimalDigit d = true → d.isDigit = true) ∧
    claim "-3:9223372036854775808" = .ok ⟨-3, .uint 9223372036854775808⟩ ∧
    claim "-3:18446744073709551616" = .error (.invalidClaim "-3:18446744073709551616") := by
  have hlabel : SpellsLabel "-3" (-3) := rfl
  have hs : ∀ body, "9223372036854775808".toList ≠ bytesQuoted body := fun body h => by cases h
  have hs' : ∀ body, "18446744073709551616".toList ≠ bytesQuoted body := fun body h => by cases h
  have hdigits : "18446744073709551616".toList.all Char.isDigit = true := rfl
  have hascii : ∀ d ∈ "18446744073709551616".toList, Text.isDecimalDigit d = true → d.isDigit = true :=
    fun d hd _ => List.all_eq_true.mp hdigits d hd
  have hspells : SpellsInteger "9223372036854775808".toList (9223372036854775808 : UInt64).toNat :=
    integer?_eq_some.mp rfl
  have hspells' : SpellsInteger "18446744073709551616".toList 18446744073709551616 := integer?_eq_some.mp rfl
  obtain ⟨htaken, -, -⟩ := claim_typed hlabel hs
  obtain ⟨-, -, hrefused⟩ := claim_typed hlabel hs'
  exact ⟨hlabel, hs, hs', hascii, (htaken _).mpr ⟨_, .uint hspells (by decide), rfl⟩,
    (hrefused hascii _).mpr ⟨rfl, _, hspells', .inr (by decide)⟩⟩

/-- A digit of another script is no text, nor an integer out of range. -/
theorem claim_foreign_digit : (∀ body, "٥".toList ≠ bytesQuoted body) ∧ ¬OutOfRange "٥".toList ∧
    claim "1:٥" = .error (.invalidClaim "1:٥") := by
  have hbytes : ∀ body, "٥".toList ≠ bytesQuoted body := fun body h => by cases h
  have hrange : ¬OutOfRange "٥".toList := by
    rintro ⟨v, hv, -⟩
    cases integer?_eq_some.mpr hv
  exact ⟨hbytes, hrange, rfl⟩

end ClaimRelay.Argument
