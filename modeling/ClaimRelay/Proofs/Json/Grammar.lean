import ClaimRelay.Json.Pieces
import ClaimRelay.Proofs.Decimal.Digits

/-!
# The grammar of JSON text

The part of JSON's own grammar that ever is written: there are no arrays, no escapes in pairs, and exponents have
their sign. An object is derived with the keys that its fields spell, none of them twice.
-/

namespace ClaimRelay.Json.Grammar

def Space (cs : List Char) : Prop := ∀ c ∈ cs, c = ' ' ∨ c = '\t' ∨ c = '\n' ∨ c = '\r'

/-! ## Numbers -/

def Digits (cs : List Char) : Prop := cs ≠ [] ∧ ∀ c ∈ cs, c.isDigit = true

inductive Whole : List Char → Prop
  | zero : Whole ['0']
  | digits {c : Char} {cs : List Char} (h : Digits (c :: cs)) (h0 : c ≠ '0') : Whole (c :: cs)

inductive Fraction : List Char → Prop
  | absent : Fraction []
  | point {cs : List Char} (h : Digits cs) : Fraction ('.' :: cs)

inductive Exponent : List Char → Prop
  | absent : Exponent []
  | signed {c : Char} {cs : List Char} (hc : c = '+' ∨ c = '-') (h : Digits cs) : Exponent ('e' :: c :: cs)

inductive Number : List Char → Prop
  | of {whole fraction exponent : List Char} (hw : Whole whole) (hf : Fraction fraction) (he : Exponent exponent) :
    Number (whole ++ fraction ++ exponent)

/-! ## Text -/

/-- The characters that are escaped by a mark, after the mark. -/
def marks : List (Char × Char) :=
  [('"', '"'), ('\\', '\\'), ('/', '/'), ('b', '\x08'), ('f', '\x0c'), ('n', '\n'), ('r', '\r'), ('t', '\t')]

/-- What stands between quotes, and the text that it spells. -/
inductive Spells : List Char → List Char → Prop
  | nil : Spells [] []
  | plain {c : Char} {cs ds : List Char} (h : ' ' ≤ c) (hq : c ≠ '"') (hb : c ≠ '\\') (hr : Spells cs ds) :
    Spells (c :: cs) (c :: ds)
  | mark {m c : Char} {cs ds : List Char} (h : (m, c) ∈ marks) (hr : Spells cs ds) : Spells ('\\' :: m :: cs) (c :: ds)
  | code {a b x y c : Char} {values : List Nat} {cs ds : List Char} (h : [a, b, x, y].mapM Text.hexValue? = some values)
    (hc : c.toNat = values.foldl (fun n v => 16 * n + v) 0) (hr : Spells cs ds) :
    Spells ('\\' :: 'u' :: a :: b :: x :: y :: cs) (c :: ds)

/-! ## Values -/

mutual

inductive Value : List Char → Prop
  | null : Value "null".toList
  | true : Value "true".toList
  | false : Value "false".toList
  | number {cs : List Char} (h : Number cs) : Value cs
  | negative {cs : List Char} (h : Number cs) : Value ('-' :: cs)
  | string {cs ds : List Char} (h : Spells cs ds) : Value ('"' :: cs ++ ['"'])
  | object {keys : List String} {cs : List Char} (h : Object keys cs) : Value cs

inductive Object : List String → List Char → Prop
  | empty {cs : List Char} (h : Space cs) : Object [] ('\x7b' :: cs ++ ['\x7d'])
  | fields {keys : List String} {cs : List Char} (h : Fields keys cs) (hn : keys.Nodup) :
    Object keys ('\x7b' :: cs ++ ['\x7d'])

inductive Fields : List String → List Char → Prop
  | last {key : String} {cs : List Char} (h : Field key cs) : Fields [key] cs
  | cons {key : String} {keys : List String} {cs ds : List Char} (h : Field key cs) (hr : Fields keys ds) :
    Fields (key :: keys) (cs ++ ',' :: ds)

inductive Field : String → List Char → Prop
  | of {key : String} {before spelled after gap value trailing : List Char} (hb : Space before)
    (hk : Spells spelled key.toList) (ha : Space after) (hg : Space gap) (hv : Value value) (ht : Space trailing) :
    Field key (before ++ ('"' :: spelled ++ ['"']) ++ after ++ ':' :: (gap ++ value ++ trailing))

end

/-! ## Numbers that are written -/

theorem digits_toDigits (n : Nat) : Digits (Nat.toDigits 10 n) :=
  ⟨Nat.toDigits_ne_nil, fun _ h => Nat.isDigit_of_mem_toDigits (by decide) (by decide) h⟩

theorem isDigit_zeros {n : Nat} {c : Char} (hc : c ∈ List.replicate n '0') : c.isDigit = true := by
  rw [List.eq_of_mem_replicate hc]
  rfl

/-- The first digits of a natural that is not zero, and any digits after them. -/
theorem whole_take {n k : Nat} (hn : n ≠ 0) (hk : 0 < k) (more : List Char) (hm : ∀ c ∈ more, c.isDigit = true) :
    Whole ((Nat.toDigits 10 n).take k ++ more) := by
  obtain ⟨k, rfl⟩ := Nat.exists_eq_succ_of_ne_zero (Nat.ne_of_gt hk)
  have hhead := Decimal.head_toDigits hn
  have hall : ∀ c ∈ (Nat.toDigits 10 n).take (k + 1) ++ more, c.isDigit = true := by
    intro c hc
    rcases List.mem_append.mp hc with hc | hc
    · exact (digits_toDigits n).2 c (List.mem_of_mem_take hc)
    · exact hm c hc
  cases hdigits : Nat.toDigits 10 n with
  | nil => exact absurd hdigits Nat.toDigits_ne_nil
  | cons c rest =>
    rw [hdigits] at hhead hall
    exact .digits ⟨nofun, hall⟩ fun hc => hhead (congrArg some hc)

theorem whole_toDigits (n : Nat) : Whole (Nat.toDigits 10 n) := by
  by_cases hn : n = 0
  · subst hn
    exact .zero
  · have h := whole_take hn (Nat.length_toDigits_pos (b := 10) (n := n)) [] nofun
    rwa [List.take_length, List.append_nil] at h

theorem Number.plain {whole fraction : List Char} (hw : Whole whole) (hf : Fraction fraction) :
    Number (whole ++ fraction) := by
  have h := Number.of hw hf .absent
  rwa [List.append_nil] at h

theorem number_positional {d : Decimal} (hd : d.digits ≠ 0 ∨ d.exponent = 0) :
    Number (Decimal.positionalDigits true d) := by
  have hlen := Nat.length_toDigits_pos (b := 10) (n := d.digits)
  have hall := (digits_toDigits d.digits).2
  unfold Decimal.positionalDigits
  -- the point stands after all digits, among them, or before the first
  by_cases he : 0 ≤ d.exponent
  · simp only [if_pos he, ite_true]
    have hwhole : Whole (Nat.toDigits 10 d.digits ++ List.replicate d.exponent.toNat '0') := by
      rcases hd with hn | hzero
      · have h := whole_take hn hlen (List.replicate d.exponent.toNat '0') (fun _ => isDigit_zeros)
        rwa [List.take_length] at h
      · rw [hzero]
        exact (List.append_nil _).symm ▸ whole_toDigits _
    exact .plain hwhole (.point ⟨nofun, by simp⟩)
  · have hn : d.digits ≠ 0 := hd.resolve_right (by omega)
    simp only [if_neg he]
    by_cases hw : 0 < ((Nat.toDigits 10 d.digits).length + d.exponent).toNat
    · rw [if_pos hw]
      have hwhole := whole_take hn hw [] nofun
      rw [List.append_nil] at hwhole
      refine .plain hwhole (.point ⟨?_, fun c hc => hall c (List.mem_of_mem_drop hc)⟩)
      intro hnil
      have hle := List.drop_eq_nil_iff.mp hnil
      omega
    · rw [if_neg hw]
      have hdigits : Digits (List.replicate (-d.exponent - (Nat.toDigits 10 d.digits).length).toNat '0' ++
          Nat.toDigits 10 d.digits) := by
        refine ⟨List.append_ne_nil_of_right_ne_nil _ Nat.toDigits_ne_nil, fun c hc => ?_⟩
        rcases List.mem_append.mp hc with hc | hc
        · exact isDigit_zeros hc
        · exact hall c hc
      have h := Number.plain .zero (.point hdigits)
      exact h

theorem number_scientific (d : Decimal) : Number (Decimal.scientificDigits d) := by
  have hall := (digits_toDigits d.digits).2
  unfold Decimal.scientificDigits
  cases hdigits : Nat.toDigits 10 d.digits with
  | nil => exact absurd hdigits Nat.toDigits_ne_nil
  | cons c rest =>
    rw [hdigits] at hall
    obtain ⟨hc, hrest⟩ := List.forall_mem_cons.mp hall
    have hwhole : Whole [c] := by
      by_cases h0 : c = '0'
      · subst h0
        exact .zero
      · exact .digits ⟨nofun, List.forall_mem_singleton.mpr hc⟩ h0
    have hfraction : Fraction (if (c :: rest).length = 1 then [] else '.' :: rest) := by
      split
      · exact .absent
      · rename_i hlen
        exact .point ⟨fun hnil => hlen (by rw [hnil]; rfl), hrest⟩
    exact .of hwhole hfraction (.signed (by split <;> simp) (digits_toDigits _))

theorem value_double (x : Double) : Value (scalarPieces (.double x)).flatten := by
  have hnumber : ∀ d : Decimal, d.digits ≠ 0 ∨ d.exponent = 0 → Number (if doubleLayout.positional d.leadingExponent
      then Decimal.positionalDigits true d else Decimal.scientificDigits d) := by
    intro d hd
    split
    · exact number_positional hd
    · exact number_scientific d
  have hd : (if x.significand = 0 then ⟨0, 0⟩ else Decimal.shortest .toEven x : Decimal).digits ≠ 0 ∨
      (if x.significand = 0 then ⟨0, 0⟩ else Decimal.shortest .toEven x : Decimal).exponent = 0 := by
    split
    · exact .inr rfl
    · rename_i hx
      exact .inl (Nat.ne_of_gt (Decimal.shortest_digits_pos (Nat.pos_of_ne_zero hx)))
  show Value ((doubleLayout.text x).toList ++ [])
  rw [List.append_nil, Decimal.Layout.text, String.toList_ofList]
  split
  · exact .negative (hnumber _ hd)
  · exact .number (hnumber _ hd)

theorem value_int (v : Int) : Value (scalarPieces (.int v)).flatten := by
  have hnumber (n : Nat) : Number (Nat.toDigits 10 n) := by
    have h := Number.plain (whole_toDigits n) .absent
    rwa [List.append_nil] at h
  show Value ((toString v).toList ++ [])
  rw [List.append_nil, Decimal.toList_toString]
  split
  · exact .number (hnumber _)
  · exact .negative (hnumber _)

/-! ## Text that is written -/

def escaped (c : Char) : List Char := (escape? c).getD [c]

theorem textPieces_flatten (run s : List Char) : (textPieces run s).flatten = run.reverse ++ s.flatMap escaped := by
  have hrun (run : List Char) : (runPiece run).flatten = run := by
    cases run <;> simp [runPiece]
  induction s generalizing run with
  | nil => simp [textPieces, hrun]
  | cons c rest ih =>
    rw [textPieces]
    cases he : escape? c with
    | none => simp [ih, escaped, he]
    | some e => simp [ih, escaped, he, hrun]

theorem hexValue_digitChar : ∀ n < 16, Text.hexValue? (Nat.digitChar n) = some n := by decide

theorem spells_escaped (c : Char) {cs ds : List Char} (h : Spells cs ds) : Spells (escaped c ++ cs) (c :: ds) := by
  unfold escaped escape?
  split
  · exact .mark (by decide) h
  · exact .mark (by decide) h
  · exact .mark (by decide) h
  · exact .mark (by decide) h
  · exact .mark (by decide) h
  · exact .mark (by decide) h
  · exact .mark (by decide) h
  · rename_i hq hb _ _ _ _ _
    split
    · rename_i hlt
      have hn : c.toNat < 32 := hlt
      have hbyte : (UInt8.ofNat c.toNat).toNat = c.toNat := by
        rw [UInt8.toNat_ofNat']
        omega
      have hzero : Text.hexValue? '0' = some 0 := hexValue_digitChar 0 (by decide)
      have hhigh := hexValue_digitChar (c.toNat / 16) (by omega)
      have hlow := hexValue_digitChar (c.toNat % 16) (by omega)
      have hdigits : ['0', '0', Nat.digitChar (c.toNat / 16), Nat.digitChar (c.toNat % 16)].mapM Text.hexValue? =
          some [0, 0, c.toNat / 16, c.toNat % 16] := by
        simp [hzero, hhigh, hlow]
      rw [Text.hexPair, hbyte]
      refine .code hdigits ?_ h
      simp only [List.foldl]
      omega
    · rename_i hge
      exact .plain (Char.not_lt.mp hge) hq hb h

theorem value_string (s : String) : ∃ cs, (stringPieces s).flatten = '"' :: cs ++ ['"'] ∧ Spells cs s.toList := by
  refine ⟨s.toList.flatMap escaped, ?_, ?_⟩
  · simp [stringPieces, textPieces_flatten]
  · induction s.toList with
    | nil => exact .nil
    | cons c rest ih => exact spells_escaped c ih

end ClaimRelay.Json.Grammar
