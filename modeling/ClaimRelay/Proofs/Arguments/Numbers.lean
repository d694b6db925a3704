import ClaimRelay.Arguments
import Mathlib.Data.List.TakeDrop
import Mathlib.Data.List.TakeWhile

/-!
# Numbers among the arguments

A number is known by its shape, in which the digits of every script count, and is read by its digits, of which only
those of ASCII have a value. The grammar has the kind of digits as a parameter, so that both can be said with it.
-/

namespace ClaimRelay.Argument

/-! ## Grammar -/

inductive ExponentSign : List Char → Bool → Prop
  | none : ExponentSign [] false
  | plus : ExponentSign ['+'] false
  | minus : ExponentSign ['-'] true

section
variable (digit : Char → Bool)

def Digits (cs : List Char) : Prop := cs ≠ [] ∧ ∀ c ∈ cs, digit c = true

def signed (negative : Bool) (cs : List Char) : List Char := if negative then '-' :: cs else cs

/-- An exponent, its sign and its digits; where there is none it is zero. -/
inductive ExponentOf : List Char → Bool → List Char → Prop
  | absent : ExponentOf [] false ['0']
  | present {e : Char} {sign ds : List Char} {negative : Bool} (he : e = 'e' ∨ e = 'E') (hs : ExponentSign sign negative)
    (hd : Digits digit ds) : ExponentOf (e :: (sign ++ ds)) negative ds

/-- Digits with a point or none, and an exponent or none. -/
structure FractionOf (cs : List Char) (f : Fraction) : Prop where
  digits : Digits digit (f.whole ++ f.part)
  spelled : ∃ point exponent, cs = f.whole ++ (point ++ exponent) ∧ (point = [] ∧ f.part = [] ∨ point = '.' :: f.part) ∧
    ExponentOf digit exponent f.exponentNegative f.exponent

def NumberOf (cs : List Char) (negative : Bool) (f : Fraction) : Prop :=
  ∃ ds, cs = signed negative ds ∧ FractionOf digit ds f

end

/-- A decimal integer in ASCII digits, and its value. -/
def SpellsInteger (cs : List Char) (v : Int) : Prop :=
  ∃ negative ds, cs = signed negative ds ∧ Digits Char.isDigit ds ∧
    v = if negative then -(Nat.ofDigitChars 10 ds 0 : Int) else Nat.ofDigitChars 10 ds 0

/-- The decimal that a fraction without sign is. -/
def Fraction.decimal (f : Fraction) : Decimal :=
  let exponent : Int := Nat.ofDigitChars 10 f.exponent 0
  ⟨Nat.ofDigitChars 10 (f.whole ++ f.part) 0, (if f.exponentNegative then -exponent else exponent) - f.part.length⟩

/-! ## Digits -/

theorem isDecimalDigit_of_isDigit {c : Char} (h : c.isDigit = true) : Text.isDecimalDigit c = true := by
  obtain ⟨hlow, hhigh⟩ := Bool.and_eq_true_iff.mp h
  have hrange : (0x30, 0x39) ∈ Text.decimalDigitRanges := .head _
  exact List.any_eq_true.mpr ⟨_, hrange, Bool.and_eq_true_iff.mpr ⟨hlow, hhigh⟩⟩

theorem Digits.mono {cs : List Char} (h : Digits Char.isDigit cs) : Digits Text.isDecimalDigit cs :=
  ⟨h.1, fun c hc => isDecimalDigit_of_isDigit (h.2 c hc)⟩

theorem natural?_eq_some {cs : List Char} {n : Nat} :
    natural? cs = some n ↔ Digits Char.isDigit cs ∧ n = Nat.ofDigitChars 10 cs 0 := by
  have hvalue : cs.foldl (fun n c => n * 10 + (c.toNat - '0'.toNat)) 0 = Nat.ofDigitChars 10 cs 0 := by
    simp only [Nat.mul_comm _ 10]
    rfl
  have hall : (cs ≠ [] ∧ cs.all Char.isDigit = true) ↔ Digits Char.isDigit cs :=
    and_congr_right fun _ => List.all_eq_true
  unfold natural?
  rw [hvalue]
  split
  · rename_i h
    exact ⟨fun hn => ⟨hall.mp h, (Option.some.inj hn).symm⟩, fun hn => congrArg some hn.2.symm⟩
  · rename_i h
    exact ⟨nofun, fun hn => absurd (hall.mpr hn.1) h⟩

/-! ## Signs -/

theorem splitSign_eq {cs ds : List Char} {negative : Bool} (h : splitSign cs = (negative, ds)) :
    cs = signed negative ds := by
  unfold splitSign at h
  split at h <;> cases h <;> rfl

theorem splitSign_signed {cs : List Char} (h : cs.head? ≠ some '-') (negative : Bool) :
    splitSign (signed negative cs) = (negative, cs) := by
  cases negative with
  | true => rfl
  | false =>
    show splitSign cs = _
    unfold splitSign
    split
    · exact absurd rfl h
    · rfl

theorem Digits.head {digit : Char → Bool} {cs : List Char} (h : Digits digit cs) : ∃ c ∈ cs.head?, digit c = true := by
  obtain ⟨c, rest, rfl⟩ := List.exists_cons_of_ne_nil h.1
  exact ⟨c, rfl, h.2 c (.head _)⟩

theorem Digits.head_ne {cs : List Char} (h : Digits Text.isDecimalDigit cs) {c : Char}
    (hc : Text.isDecimalDigit c = false) : cs.head? ≠ some c := by
  intro hhead
  obtain ⟨d, hd, hdigit⟩ := h.head
  rw [hhead] at hd
  cases hd
  rw [hc] at hdigit
  cases hdigit

theorem integer?_eq (cs : List Char) : integer? cs =
    (natural? (splitSign cs).2).map fun (n : Nat) => if (splitSign cs).1 then -(n : Int) else n := by
  unfold integer?
  obtain ⟨negative, ds⟩ := splitSign cs
  dsimp only
  cases natural? ds <;> rfl

theorem integer?_eq_some {cs : List Char} {v : Int} : integer? cs = some v ↔ SpellsInteger cs v := by
  rw [integer?_eq]
  constructor
  · intro h
    obtain ⟨n, hn, hv⟩ := Option.map_eq_some_iff.mp h
    obtain ⟨hdigits, rfl⟩ := natural?_eq_some.mp hn
    exact ⟨_, _, splitSign_eq rfl, hdigits, hv.symm⟩
  · rintro ⟨negative, ds, rfl, hdigits, rfl⟩
    rw [splitSign_signed (hdigits.mono.head_ne (by decide)), natural?_eq_some.mpr ⟨hdigits, rfl⟩]
    rfl

theorem looksInteger_iff {cs : List Char} :
    looksInteger cs = true ↔ ∃ negative ds, cs = signed negative ds ∧ Digits Text.isDecimalDigit ds := by
  have hdigits : looksInteger cs = true ↔ Digits Text.isDecimalDigit (splitSign cs).2 := by
    unfold looksInteger Digits
    simp
  rw [hdigits]
  constructor
  · intro h
    exact ⟨_, _, splitSign_eq rfl, h⟩
  · rintro ⟨negative, ds, rfl, h⟩
    rwa [splitSign_signed (h.head_ne (by decide))]

/-! ## Fractions -/

/-- The sign of an exponent, which may be a plus sign, and what follows it. -/
def splitExponentSign : List Char → Bool × List Char
  | '+' :: cs => (false, cs)
  | cs => splitSign cs

theorem splitExponentSign_eq {cs ds : List Char} {negative : Bool} (h : splitExponentSign cs = (negative, ds)) :
    ∃ sign, ExponentSign sign negative ∧ cs = sign ++ ds := by
  unfold splitExponentSign at h
  split at h
  · cases h
    exact ⟨_, .plus, rfl⟩
  · have hcs := splitSign_eq h
    cases negative with
    | true => exact ⟨_, .minus, hcs⟩
    | false => exact ⟨_, .none, hcs⟩

theorem splitExponentSign_append {sign ds : List Char} {negative : Bool} (h : ExponentSign sign negative)
    (hd : Digits Text.isDecimalDigit ds) : splitExponentSign (sign ++ ds) = (negative, ds) := by
  cases h with
  | none =>
    have hplus : ds.head? ≠ some '+' := hd.head_ne (by decide)
    rw [List.nil_append]
    unfold splitExponentSign
    split
    · exact absurd rfl hplus
    · exact splitSign_signed (hd.head_ne (by decide)) false
  | plus => rfl
  | minus => rfl

theorem splitExponent?_cons {e : Char} {cs : List Char} {p : Bool × List Char} : splitExponent? (e :: cs) = some p ↔
    (e = 'e' ∨ e = 'E') ∧ splitExponentSign cs = p ∧ Digits Text.isDecimalDigit p.2 := by
  have hsplit : splitExponent? (e :: cs) = if (e = 'e' ∨ e = 'E') ∧ !(splitExponentSign cs).2.isEmpty ∧
      (splitExponentSign cs).2.all Text.isDecimalDigit then some (splitExponentSign cs) else none := rfl
  have hdigits : (!(splitExponentSign cs).2.isEmpty ∧ (splitExponentSign cs).2.all Text.isDecimalDigit) ↔
      Digits Text.isDecimalDigit (splitExponentSign cs).2 := by
    unfold Digits
    simp
  rw [hsplit, Option.ite_none_right_eq_some, hdigits]
  constructor
  · rintro ⟨⟨he, hd⟩, hp⟩
    cases hp
    exact ⟨he, rfl, hd⟩
  · rintro ⟨he, rfl, hd⟩
    exact ⟨⟨he, hd⟩, rfl⟩

theorem splitExponent?_eq_some {cs ds : List Char} {negative : Bool} :
    splitExponent? cs = some (negative, ds) ↔ ExponentOf Text.isDecimalDigit cs negative ds := by
  constructor
  · intro h
    cases cs with
    | nil =>
      cases h
      exact .absent
    | cons e cs =>
      obtain ⟨he, hsign, hd⟩ := splitExponent?_cons.mp h
      obtain ⟨sign, hs, rfl⟩ := splitExponentSign_eq hsign
      exact .present he hs hd
  · intro h
    cases h with
    | absent => rfl
    | present he hs hd => exact splitExponent?_cons.mpr ⟨he, splitExponentSign_append hs hd, hd⟩

theorem ExponentOf.head {digit : Char → Bool} {cs ds : List Char} {negative : Bool}
    (h : ExponentOf digit cs negative ds) : ∀ c ∈ cs.head?, c = 'e' ∨ c = 'E' := by
  intro c hc
  cases h with
  | absent => cases hc
  | present he hs hd =>
    cases hc
    exact he

theorem ExponentOf.not_digit {cs ds : List Char} {negative : Bool}
    (h : ExponentOf Text.isDecimalDigit cs negative ds) : ∀ c ∈ cs.head?, Text.isDecimalDigit c = false := by
  intro c hc
  rcases h.head c hc with rfl | rfl <;> decide

theorem span_append {α : Type} {p : α → Bool} {as bs : List α} (ha : ∀ a ∈ as, p a = true)
    (hb : ∀ b ∈ bs.head?, p b = false) : (as ++ bs).span p = (as, bs) := by
  rw [List.span_eq_takeWhile_dropWhile, List.takeWhile_append_of_pos ha, List.dropWhile_append_of_pos ha]
  cases bs with
  | nil => rw [List.takeWhile_nil, List.dropWhile_nil, List.append_nil]
  | cons b bs =>
    have hb : ¬p b = true := Bool.not_eq_true _ ▸ hb b rfl
    rw [List.takeWhile_cons_of_neg hb, List.dropWhile_cons_of_neg hb, List.append_nil]

theorem span_eq {α : Type} {p : α → Bool} {cs as bs : List α} (h : cs.span p = (as, bs)) :
    cs = as ++ bs ∧ ∀ a ∈ as, p a = true := by
  rw [List.span_eq_takeWhile_dropWhile] at h
  cases h
  exact ⟨List.takeWhile_append_dropWhile.symm, fun a ha => List.mem_takeWhile_imp ha⟩

/-- The digits after the point, if there is one, and what follows them. -/
def splitPart : List Char → List Char × List Char
  | '.' :: cs => cs.span Text.isDecimalDigit
  | cs => ([], cs)

theorem splitPart_eq {cs part rest : List Char} (h : splitPart cs = (part, rest)) :
    (∃ point, cs = point ++ rest ∧ (point = [] ∧ part = [] ∨ point = '.' :: part)) ∧
      ∀ c ∈ part, Text.isDecimalDigit c = true := by
  unfold splitPart at h
  split at h
  · obtain ⟨rfl, hdigits⟩ := span_eq h
    exact ⟨⟨_, rfl, .inr rfl⟩, hdigits⟩
  · cases h
    exact ⟨⟨[], rfl, .inl ⟨rfl, rfl⟩⟩, List.forall_mem_nil _⟩

theorem splitPart_append {point part exponent ds : List Char} {negative : Bool}
    (hpoint : point = [] ∧ part = [] ∨ point = '.' :: part) (hdigits : ∀ c ∈ part, Text.isDecimalDigit c = true)
    (he : ExponentOf Text.isDecimalDigit exponent negative ds) : splitPart (point ++ exponent) = (part, exponent) := by
  rcases hpoint with ⟨rfl, rfl⟩ | rfl
  · rw [List.nil_append]
    unfold splitPart
    split
    · rcases he.head '.' rfl with h | h <;> cases h
    · rfl
  · exact span_append hdigits he.not_digit

theorem splitFraction?_of {cs whole rest part exponent : List Char}
    (hwhole : cs.span Text.isDecimalDigit = (whole, rest)) (hpart : splitPart rest = (part, exponent)) :
    splitFraction? cs = if whole.isEmpty && part.isEmpty then none
      else (splitExponent? exponent).bind fun p => some ⟨whole, part, p.1, p.2⟩ := by
  have hsplit : splitFraction? cs =
      if (cs.span Text.isDecimalDigit).1.isEmpty && (splitPart (cs.span Text.isDecimalDigit).2).1.isEmpty then none
      else (splitExponent? (splitPart (cs.span Text.isDecimalDigit).2).2).bind fun p =>
        some ⟨(cs.span Text.isDecimalDigit).1, (splitPart (cs.span Text.isDecimalDigit).2).1, p.1, p.2⟩ := rfl
  rw [hsplit, hwhole, hpart]

theorem splitFraction?_eq_some {cs : List Char} {f : Fraction} :
    splitFraction? cs = some f ↔ FractionOf Text.isDecimalDigit cs f := by
  constructor
  · intro h
    rcases hspan : cs.span Text.isDecimalDigit with ⟨whole, rest⟩
    rcases hsplit : splitPart rest with ⟨part, exponent⟩
    rw [splitFraction?_of hspan hsplit, Option.ite_none_left_eq_some, Bool.and_eq_true_iff, List.isEmpty_iff,
      List.isEmpty_iff] at h
    obtain ⟨hsome, h⟩ := h
    obtain ⟨⟨negative, ds⟩, he, hf⟩ := Option.bind_eq_some_iff.mp h
    cases hf
    obtain ⟨rfl, hwhole⟩ := span_eq hspan
    obtain ⟨⟨point, rfl, hpoint⟩, hpart⟩ := splitPart_eq hsplit
    exact ⟨⟨fun hnil => hsome (List.append_eq_nil_iff.mp hnil), List.forall_mem_append.mpr ⟨hwhole, hpart⟩⟩,
      point, exponent, rfl, hpoint, splitExponent?_eq_some.mp he⟩
  · rintro ⟨⟨hsome, hdigits⟩, point, exponent, rfl, hpoint, he⟩
    obtain ⟨hwhole, hpart⟩ := List.forall_mem_append.mp hdigits
    have hnext : ∀ c ∈ (point ++ exponent).head?, Text.isDecimalDigit c = false := by
      intro c hc
      rcases hpoint with ⟨rfl, -⟩ | rfl
      · exact he.not_digit c hc
      · cases hc
        decide
    rw [splitFraction?_of (span_append hwhole hnext) (splitPart_append hpoint hpart he), Option.ite_none_left_eq_some,
      Bool.and_eq_true_iff, List.isEmpty_iff, List.isEmpty_iff, splitExponent?_eq_some.mpr he]
    exact ⟨fun hnil => hsome (List.append_eq_nil_iff.mpr hnil), rfl⟩

theorem nearest?_eq_some {f : Fraction} {negative : Bool} {x : Double} : f.nearest? negative = some x ↔
    Digits Char.isDigit (f.whole ++ f.part) ∧ Digits Char.isDigit f.exponent ∧
      x = Decimal.nearest negative f.decimal := by
  unfold Fraction.nearest?
  simp only [Option.bind_eq_bind, Option.bind_eq_some_iff, natural?_eq_some]
  constructor
  · rintro ⟨_, ⟨hdigits, rfl⟩, _, ⟨he, rfl⟩, hx⟩
    cases hx
    exact ⟨hdigits, he, rfl⟩
  · rintro ⟨hdigits, he, rfl⟩
    exact ⟨_, ⟨hdigits, rfl⟩, _, ⟨he, rfl⟩, rfl⟩

/-! ## Kinds of digits -/

section
variable {digit digit' : Char → Bool} {cs ds : List Char} {negative : Bool} {f : Fraction}

theorem ExponentOf.digits (hzero : digit '0' = true) (h : ExponentOf digit cs negative ds) : Digits digit ds := by
  cases h with
  | absent => exact ⟨List.cons_ne_nil _ _, List.forall_mem_singleton.mpr hzero⟩
  | present _ _ hd => exact hd

theorem ExponentOf.of_digits (h : ExponentOf digit cs negative ds) (hd : Digits digit' ds) :
    ExponentOf digit' cs negative ds := by
  cases h with
  | absent => exact .absent
  | present he hs _ => exact .present he hs hd

theorem FractionOf.exponent (hzero : digit '0' = true) (h : FractionOf digit cs f) : Digits digit f.exponent := by
  obtain ⟨-, _, _, -, -, he⟩ := h
  exact he.digits hzero

theorem FractionOf.of_digits (h : FractionOf digit cs f) (hd : Digits digit' (f.whole ++ f.part))
    (he : Digits digit' f.exponent) : FractionOf digit' cs f := by
  obtain ⟨-, point, exponent, hcs, hpoint, hexp⟩ := h
  exact ⟨hd, point, exponent, hcs, hpoint, hexp.of_digits he⟩

theorem FractionOf.head (h : FractionOf digit cs f) : ∃ c ∈ cs.head?, digit c = true ∨ c = '.' := by
  obtain ⟨whole, part, negative, ds⟩ := f
  obtain ⟨⟨hsome, hdigits⟩, point, exponent, rfl, hpoint, -⟩ := h
  cases whole with
  | nil =>
    rcases hpoint with ⟨-, hpart⟩ | rfl
    · exact absurd hpart hsome
    · exact ⟨'.', rfl, .inr rfl⟩
  | cons c whole => exact ⟨c, rfl, .inl (hdigits c (.head _))⟩

end

/-! ## Numbers -/

section
variable {digit : Char → Bool} {cs ds : List Char} {negative : Bool} {f : Fraction}

theorem numberOf_digits (h : Digits digit ds) (negative : Bool) :
    NumberOf digit (signed negative ds) negative ⟨ds, [], false, ['0']⟩ := by
  refine ⟨ds, rfl, (List.append_nil ds).symm ▸ h, [], [], ?_, .inl ⟨rfl, rfl⟩, .absent⟩
  rw [List.append_nil, List.append_nil]

theorem NumberOf.head (h : NumberOf digit cs negative f) : ∃ c ∈ cs.head?, digit c = true ∨ c = '.' ∨ c = '-' := by
  obtain ⟨ds, rfl, hf⟩ := h
  cases negative with
  | true => exact ⟨'-', rfl, .inr (.inr rfl)⟩
  | false =>
    obtain ⟨c, hc, h⟩ := hf.head
    exact ⟨c, hc, h.imp_right .inl⟩

/-- A number is read in one way only. -/
theorem numberOf_iff : NumberOf Text.isDecimalDigit cs negative f ↔
    (splitSign cs).1 = negative ∧ splitFraction? (splitSign cs).2 = some f := by
  constructor
  · rintro ⟨ds, rfl, hf⟩
    have hsign : ds.head? ≠ some '-' := by
      intro hminus
      obtain ⟨c, hc, h⟩ := hf.head
      rw [hminus] at hc
      cases hc
      revert h
      decide
    rw [splitSign_signed hsign]
    exact ⟨rfl, splitFraction?_eq_some.mpr hf⟩
  · rintro ⟨rfl, hf⟩
    exact ⟨_, splitSign_eq rfl, splitFraction?_eq_some.mp hf⟩

theorem NumberOf.mono (h : NumberOf Char.isDigit cs negative f) : NumberOf Text.isDecimalDigit cs negative f := by
  obtain ⟨ds, hcs, hf⟩ := h
  exact ⟨ds, hcs, hf.of_digits hf.digits.mono (hf.exponent (by decide)).mono⟩

theorem SpellsInteger.number {v : Int} (h : SpellsInteger cs v) : ∃ negative f, NumberOf Char.isDigit cs negative f := by
  obtain ⟨negative, ds, rfl, hd, -⟩ := h
  exact ⟨_, _, numberOf_digits hd negative⟩

/-- What looks like an integer is one, if its digits are those of a number that is read. -/
theorem spellsInteger_of_looksInteger (h : NumberOf Char.isDigit cs negative f) (hlooks : looksInteger cs = true) :
    ∃ v, SpellsInteger cs v := by
  obtain ⟨negative', ds, rfl, hd⟩ := looksInteger_iff.mp hlooks
  obtain ⟨-, hsplit⟩ := numberOf_iff.mp h.mono
  obtain ⟨-, hsplit'⟩ := numberOf_iff.mp (numberOf_digits hd negative')
  cases Option.some.inj (hsplit.symm.trans hsplit')
  obtain ⟨_, -, hf⟩ := h
  exact ⟨_, negative', ds, rfl, List.append_nil ds ▸ hf.digits, rfl⟩

theorem ExponentOf.ascii (h : ExponentOf Text.isDecimalDigit cs negative ds)
    (ha : ∀ c ∈ cs, Text.isDecimalDigit c = true → c.isDigit = true) : Digits Char.isDigit ds := by
  cases h with
  | absent => exact ⟨List.cons_ne_nil _ _, List.forall_mem_singleton.mpr rfl⟩
  | present _ _ hd => exact ⟨hd.1, fun c hc => ha c (.tail _ (List.mem_append_right _ hc)) (hd.2 c hc)⟩

theorem FractionOf.ascii (h : FractionOf Text.isDecimalDigit cs f)
    (ha : ∀ c ∈ cs, Text.isDecimalDigit c = true → c.isDigit = true) : FractionOf Char.isDigit cs f := by
  obtain ⟨hdigits, point, exponent, rfl, hpoint, he⟩ := h
  have hpart : ∀ c ∈ f.part, c ∈ point := by
    intro c hc
    rcases hpoint with ⟨-, hnil⟩ | rfl
    · rw [hnil] at hc
      cases hc
    · exact .tail _ hc
  have hmem : ∀ c ∈ f.whole ++ f.part, c ∈ f.whole ++ (point ++ exponent) := by
    intro c hc
    rcases List.mem_append.mp hc with hc | hc
    · exact List.mem_append_left _ hc
    · exact List.mem_append_right _ (List.mem_append_left _ (hpart c hc))
  have hexponent : Digits Char.isDigit f.exponent :=
    he.ascii fun c hc => ha c (List.mem_append_right _ (List.mem_append_right _ hc))
  exact ⟨⟨hdigits.1, fun c hc => ha c (hmem c hc) (hdigits.2 c hc)⟩, point, exponent, rfl, hpoint,
    he.of_digits hexponent⟩

theorem NumberOf.ascii (h : NumberOf Text.isDecimalDigit cs negative f)
    (ha : ∀ c ∈ cs, Text.isDecimalDigit c = true → c.isDigit = true) : NumberOf Char.isDigit cs negative f := by
  obtain ⟨ds, rfl, hf⟩ := h
  refine ⟨ds, rfl, hf.ascii fun c hc => ha c ?_⟩
  cases negative with
  | true => exact .tail _ hc
  | false => exact hc

end

end ClaimRelay.Argument
