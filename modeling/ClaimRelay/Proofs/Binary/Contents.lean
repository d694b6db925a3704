import ClaimRelay.Binary.Contents

/-!
# Contents read back

The fewest bytes of a number stand for the number that all of them stand for, so what is written is what
is read: numbers, doubles bit for bit, and text.
-/

namespace ClaimRelay.Binary

theorem pure_eq_ok {ε α : Type} (a : α) : (pure a : Except ε α) = .ok a := rfl

theorem ok_bind {ε α β : Type} (a : α) (f : α → Except ε β) : (Except.ok a >>= f) = f a := rfl

theorem error_bind {ε α β : Type} (e : ε) (f : α → Except ε β) : (Except.error e >>= f) = .error e := rfl

theorem bind_eq_ok {ε α β : Type} {x : Except ε α} {f : α → Except ε β} {b : β} :
    (x >>= f) = .ok b ↔ ∃ a, x = .ok a ∧ f a = .ok b := by
  cases x with
  | error e => exact ⟨nofun, fun ⟨_, h, _⟩ => nomatch h⟩
  | ok a => exact ⟨fun h => ⟨a, rfl, h⟩, fun ⟨_, ha, h⟩ => Except.ok.inj ha ▸ h⟩

theorem map_eq_ok {ε α β : Type} {x : Except ε α} {f : α → β} {b : β} :
    f <$> x = .ok b ↔ ∃ a, x = .ok a ∧ f a = b := by
  cases x with
  | error e => exact ⟨nofun, fun ⟨_, h, _⟩ => nomatch h⟩
  | ok a => exact ⟨fun h => ⟨a, rfl, Except.ok.inj h⟩, fun ⟨_, ha, h⟩ => Except.ok.inj ha ▸ h ▸ rfl⟩

theorem mapM_cons_eq_ok {ε α β : Type} {f : α → Except ε β} {a : α} {as : List α} {bs : List β} :
    (a :: as).mapM f = .ok bs ↔ ∃ b rest, f a = .ok b ∧ as.mapM f = .ok rest ∧ bs = b :: rest := by
  rw [List.mapM_cons]
  simp only [bind_eq_ok]
  constructor
  · intro ⟨b, hb, rest, hrest, h⟩
    exact ⟨b, rest, hb, hrest, (Except.ok.inj h).symm⟩
  · intro ⟨b, rest, hb, hrest, h⟩
    exact ⟨b, hb, rest, hrest, h ▸ rfl⟩

/-! ## Digits -/

theorem span_succ (n : Nat) : Nat.pow 256 (n + 1) = 256 * Nat.pow 256 n := Nat.mul_comm ..

theorem bigEndian_length (count n : Nat) : (bigEndian count n).length = count := by
  induction count generalizing n with
  | zero => rfl
  | succ count ih => simp [bigEndian, ih]

theorem bigEndian_ne_nil (n : Nat) : bigEndian 8 n ≠ [] :=
  List.ne_nil_of_length_pos (by rw [bigEndian_length]; decide)

theorem ofBigEndian_concat (bytes : List UInt8) (b : UInt8) :
    ofBigEndian (bytes ++ [b]) = ofBigEndian bytes * 256 + b.toNat := by
  unfold ofBigEndian
  rw [List.foldl_append]
  rfl

theorem ofBigEndian_bigEndian {count n : Nat} (h : n < Nat.pow 256 count) :
    ofBigEndian (bigEndian count n) = n := by
  induction count generalizing n with
  | zero =>
    have : n = 0 := Nat.lt_one_iff.mp h
    subst this
    rfl
  | succ count ih =>
    rw [span_succ] at h
    have hdigit : (UInt8.ofNat (n % 256)).toNat = n % 256 := by simp
    have hrest : ofBigEndian (bigEndian count (n / 256)) = n / 256 := by
      apply ih
      omega
    rw [bigEndian, ofBigEndian_concat, hdigit, hrest]
    omega

theorem foldl_digits (bytes : List UInt8) (n : Nat) : bytes.foldl (fun n b => n * 256 + b.toNat) n =
    n * Nat.pow 256 bytes.length + ofBigEndian bytes := by
  induction bytes generalizing n with
  | nil => simp [ofBigEndian]
  | cons b bytes ih =>
    unfold ofBigEndian
    rw [List.foldl_cons, List.foldl_cons, ih, ih (0 * 256 + b.toNat), List.length_cons, span_succ, Nat.add_mul,
      Nat.mul_assoc, Nat.zero_mul, Nat.zero_add, Nat.add_assoc]

theorem ofBigEndian_cons (b : UInt8) (bytes : List UInt8) :
    ofBigEndian (b :: bytes) = b.toNat * Nat.pow 256 bytes.length + ofBigEndian bytes := by
  have hfirst : 0 * 256 + b.toNat = b.toNat := by omega
  show bytes.foldl (fun n b => n * 256 + b.toNat) (0 * 256 + b.toNat) = _
  rw [foldl_digits, hfirst]

theorem ofBigEndian_lt (bytes : List UInt8) : ofBigEndian bytes < Nat.pow 256 bytes.length := by
  induction bytes with
  | nil => exact Nat.one_pos
  | cons b bytes ih =>
    have hb : b.toNat * Nat.pow 256 bytes.length ≤ 255 * Nat.pow 256 bytes.length :=
      Nat.mul_le_mul_right _ (Nat.le_of_lt_succ b.toNat_lt)
    rw [ofBigEndian_cons, List.length_cons, span_succ]
    omega

/-! ## Stripping -/

/-- Whether stripping takes a byte off in front of others just if it is the one that their value determines, and that
one adds nothing to the value. -/
structure Strips {β : Type} (strip : List UInt8 → List UInt8) (value : List UInt8 → β) (fill : β → UInt8) : Prop where
  one (a : UInt8) : strip [a] = [a]
  cons (a : UInt8) {bytes : List UInt8} (h : bytes ≠ []) :
    strip (a :: bytes) = if a = fill (value bytes) then strip bytes else a :: bytes
  value_cons {bytes : List UInt8} (h : bytes ≠ []) : value (fill (value bytes) :: bytes) = value bytes

namespace Strips
variable {β : Type} {strip : List UInt8 → List UInt8} {value : List UInt8 → β} {fill : β → UInt8}
  (hs : Strips strip value fill)
include hs

theorem stripped : ∀ {bytes : List UInt8}, bytes ≠ [] → strip bytes ≠ [] ∧ value (strip bytes) = value bytes ∧
    ∃ n, bytes = List.replicate n (fill (value bytes)) ++ strip bytes
  | [a], _ => by
    rw [hs.one]
    exact ⟨List.cons_ne_nil _ _, rfl, 0, rfl⟩
  | a :: b :: rest, _ => by
    have hne : b :: rest ≠ [] := List.cons_ne_nil _ _
    rw [hs.cons a hne]
    by_cases ha : a = fill (value (b :: rest))
    · obtain ⟨hsome, hvalue, n, hn⟩ := stripped hne
      have hadds : value (a :: b :: rest) = value (b :: rest) := by rw [ha, hs.value_cons hne]
      rw [if_pos ha, hadds]
      refine ⟨hsome, hvalue, n + 1, ?_⟩
      rw [List.replicate_succ, List.cons_append, ← hn, ← ha]
    · rw [if_neg ha]
      exact ⟨List.cons_ne_nil _ _, rfl, 0, rfl⟩

variable {bytes : List UInt8}

theorem value_strip (h : bytes ≠ []) : value (strip bytes) = value bytes := (hs.stripped h).2.1

theorem suffix (h : bytes ≠ []) : strip bytes <:+ bytes := by
  obtain ⟨-, -, n, hn⟩ := hs.stripped h
  exact ⟨_, hn.symm⟩

theorem length (h : bytes ≠ []) : 1 ≤ (strip bytes).length ∧ (strip bytes).length ≤ bytes.length :=
  ⟨List.length_pos_iff.mpr (hs.stripped h).1, (hs.suffix h).length_le⟩

theorem padded (h : bytes ≠ []) (n : Nat) :
    strip (List.replicate n (fill (value bytes)) ++ bytes) = strip bytes ∧
      value (List.replicate n (fill (value bytes)) ++ bytes) = value bytes := by
  induction n with
  | zero => exact ⟨rfl, rfl⟩
  | succ n ih =>
    -- the value stays, and with it the byte that adds nothing
    obtain ⟨hstrip, hvalue⟩ := ih
    have hne : List.replicate n (fill (value bytes)) ++ bytes ≠ [] := List.append_ne_nil_of_right_ne_nil _ h
    have hcons := hs.cons (fill (value bytes)) hne
    have hadds := hs.value_cons hne
    rw [hvalue] at hcons hadds
    rw [if_pos rfl, hstrip] at hcons
    exact ⟨hcons, hadds⟩

theorem exists_padded {n : Nat} (hlen : 1 ≤ bytes.length ∧ bytes.length ≤ n) :
    ∃ padded : List UInt8, padded.length = n ∧ strip padded = strip bytes ∧ value padded = value bytes := by
  refine ⟨_, ?_, hs.padded (List.ne_nil_of_length_pos hlen.1) (n - bytes.length)⟩
  rw [List.length_append, List.length_replicate, Nat.sub_add_cancel hlen.2]

end Strips

/-! ## Unsigned numbers -/

theorem strips_zeros : Strips stripZeros ofBigEndian fun _ => 0x00 where
  one _ := rfl
  cons a bytes h := by
    cases bytes with
    | nil => exact absurd rfl h
    | cons b rest => rw [stripZeros]
  value_cons _ := by rw [ofBigEndian_cons, UInt8.toNat_zero, Nat.zero_mul, Nat.zero_add]

theorem decodeUnsigned_eq_ok {bytes : List UInt8} {v : UInt64} : decodeUnsigned bytes = .ok v ↔
    (1 ≤ bytes.length ∧ bytes.length ≤ 8) ∧ v.toNat = ofBigEndian bytes := by
  unfold decodeUnsigned
  by_cases hlen : 1 ≤ bytes.length ∧ bytes.length ≤ 8
  · have hspan : Nat.pow 256 bytes.length ≤ Nat.pow 256 8 := Nat.pow_le_pow_right (by decide) hlen.2
    have hvalue : (UInt64.ofNat (ofBigEndian bytes)).toNat = ofBigEndian bytes :=
      UInt64.toNat_ofNat_of_lt' (Nat.lt_of_lt_of_le (ofBigEndian_lt bytes) hspan)
    rw [if_pos hlen, pure_eq_ok, Except.ok.injEq, ← UInt64.toNat_inj, hvalue]
    exact ⟨fun h => ⟨hlen, h.symm⟩, fun h => h.2.symm⟩
  · rw [if_neg hlen]
    exact ⟨nofun, fun h => absurd h.1 hlen⟩

theorem decodeUnsigned_encodeUnsigned (v : UInt64) : decodeUnsigned (encodeUnsigned v) = .ok v := by
  have hlen := strips_zeros.length (bigEndian_ne_nil v.toNat)
  rw [bigEndian_length] at hlen
  refine decodeUnsigned_eq_ok.mpr ⟨hlen, ?_⟩
  rw [encodeUnsigned, strips_zeros.value_strip (bigEndian_ne_nil _), ofBigEndian_bigEndian v.toNat_lt]

/-! ## Signed numbers -/

/-- The number that bytes stand for in two's complement. -/
def signedValue (bytes : List UInt8) : Int :=
  if Nat.pow 256 bytes.length ≤ 2 * ofBigEndian bytes then ofBigEndian bytes - Nat.pow 256 bytes.length
  else ofBigEndian bytes

/-- A leading byte that repeats the sign adds nothing. -/
theorem signedValue_cons {a b : UInt8} {rest : List UInt8}
    (h : a = 0x00 ∧ b < 0x80 ∨ a = 0xff ∧ 0x80 ≤ b) : signedValue (a :: b :: rest) = signedValue (b :: rest) := by
  have hrest := ofBigEndian_lt rest
  unfold signedValue
  rw [ofBigEndian_cons a, ofBigEndian_cons b, List.length_cons, List.length_cons, span_succ, span_succ]
  -- linear in the products of the two bytes with `span` from here on
  generalize Nat.pow 256 rest.length = span at *
  generalize ofBigEndian rest = low at *
  rcases h with ⟨rfl, hb⟩ | ⟨rfl, hb⟩
  · have hb : b.toNat * span ≤ 127 * span := Nat.mul_le_mul_right _ (Nat.le_of_lt_succ hb)
    have h0 : (0x00 : UInt8).toNat = 0 := rfl
    rw [h0, Nat.zero_mul, Nat.zero_add, if_neg (by omega), if_neg (by omega)]
  · have hb : 128 * span ≤ b.toNat * span := Nat.mul_le_mul_right _ hb
    have h0 : (0xff : UInt8).toNat = 255 := rfl
    rw [h0, if_pos (by omega), if_pos (by omega)]
    omega

/-- The byte that can stand in front of a number and adds nothing. -/
def signFill (v : Int) : UInt8 := if v < 0 then 0xff else 0x00

theorem signedValue_neg (first : UInt8) (rest : List UInt8) : signedValue (first :: rest) < 0 ↔ 0x80 ≤ first := by
  have hrest := ofBigEndian_lt rest
  unfold signedValue
  rw [ofBigEndian_cons, List.length_cons, span_succ]
  generalize Nat.pow 256 rest.length = span at *
  generalize ofBigEndian rest = low at *
  by_cases hfirst : first < 0x80
  · have hle : first.toNat * span ≤ 127 * span := Nat.mul_le_mul_right _ (Nat.le_of_lt_succ hfirst)
    rw [if_neg (by omega)]
    exact iff_of_false (by omega) (UInt8.not_le.mpr hfirst)
  · have hge : 128 * span ≤ first.toNat * span := Nat.mul_le_mul_right _ (UInt8.not_lt.mp hfirst)
    have hle : first.toNat * span ≤ 255 * span := Nat.mul_le_mul_right _ (Nat.le_of_lt_succ first.toNat_lt)
    rw [if_pos (by omega)]
    exact iff_of_true (by omega) (UInt8.not_lt.mp hfirst)

theorem repeatsSign_iff (a b : UInt8) (rest : List UInt8) :
    a = 0x00 ∧ b < 0x80 ∨ a = 0xff ∧ 0x80 ≤ b ↔ a = signFill (signedValue (b :: rest)) := by
  unfold signFill
  by_cases hb : 0x80 ≤ b
  · simp [signedValue_neg, hb, UInt8.not_lt.mpr hb]
  · simp [signedValue_neg, hb, UInt8.not_le.mp hb]

theorem strips_sign : Strips stripSign signedValue signFill where
  one _ := rfl
  cons a bytes h := by
    cases bytes with
    | nil => exact absurd rfl h
    | cons b rest =>
      rw [stripSign]
      simp only [repeatsSign_iff a b rest]
  value_cons {bytes} h := by
    cases bytes with
    | nil => exact absurd rfl h
    | cons b rest => exact signedValue_cons ((repeatsSign_iff _ b rest).mpr rfl)

theorem signedValue_bigEndian (v : Int64) : signedValue (bigEndian 8 v.toUInt64.toNat) = v.toInt := by
  have hv : v.toUInt64.toNat < Nat.pow 256 8 := v.toUInt64.toNat_lt
  have hspan : Nat.pow 256 8 = 18446744073709551616 := by decide
  have hnat : v.toUInt64.toNat = v.toBitVec.toNat := rfl
  have hint : v.toInt = v.toBitVec.toInt := rfl
  unfold signedValue
  rw [bigEndian_length, ofBigEndian_bigEndian hv, hint, BitVec.toInt_eq_toNat_cond, ← hnat, hspan]
  split <;> split <;> omega

theorem decodeSigned_eq_ok {bytes : List UInt8} {v : Int64} : decodeSigned bytes = .ok v ↔
    (1 ≤ bytes.length ∧ bytes.length ≤ 8) ∧ v.toInt = signedValue bytes := by
  unfold decodeSigned
  by_cases hlen : 1 ≤ bytes.length ∧ bytes.length ≤ 8
  · have hspan : Nat.pow 256 bytes.length ≤ Nat.pow 256 8 := Nat.pow_le_pow_right (by decide) hlen.2
    have h8 : Nat.pow 256 8 = 18446744073709551616 := by decide
    have hlt := ofBigEndian_lt bytes
    have hvalue : (Int64.ofInt (signedValue bytes)).toInt = signedValue bytes := by
      apply Int64.toInt_ofInt_of_le <;> unfold signedValue <;> split <;> omega
    rw [if_pos hlen]
    show Except.ok (Int64.ofInt (signedValue bytes)) = _ ↔ _
    rw [Except.ok.injEq, ← Int64.toInt_inj, hvalue]
    exact ⟨fun h => ⟨hlen, h.symm⟩, fun h => h.2.symm⟩
  · rw [if_neg hlen]
    exact ⟨nofun, fun h => absurd h.1 hlen⟩

theorem decodeSigned_encodeSigned (v : Int64) : decodeSigned (encodeSigned v) = .ok v := by
  have hlen := strips_sign.length (bigEndian_ne_nil v.toUInt64.toNat)
  rw [bigEndian_length] at hlen
  refine decodeSigned_eq_ok.mpr ⟨hlen, ?_⟩
  rw [encodeSigned, strips_sign.value_strip (bigEndian_ne_nil _), signedValue_bigEndian]

/-! ## Doubles and text -/

theorem decodeDouble_eq_ok {bytes : List UInt8} {x : Double} : decodeDouble bytes = .ok x ↔
    bytes.length = 8 ∧ x.bits.toNat = ofBigEndian bytes := by
  unfold decodeDouble
  by_cases hlen : bytes.length = 8
  · have hlt := ofBigEndian_lt bytes
    rw [hlen] at hlt
    have hvalue : (UInt64.ofNat (ofBigEndian bytes)).toNat = ofBigEndian bytes := UInt64.toNat_ofNat_of_lt' hlt
    rw [if_pos hlen, pure_eq_ok, Except.ok.injEq]
    refine ⟨fun h => ⟨hlen, by rw [← h, hvalue]⟩, fun h => ?_⟩
    rw [← h.2, UInt64.ofNat_toNat]
  · rw [if_neg hlen]
    exact ⟨nofun, fun h => absurd h.1 hlen⟩

theorem decodeDouble_encodeDouble (x : Double) : decodeDouble (encodeDouble x) = .ok x :=
  decodeDouble_eq_ok.mpr ⟨bigEndian_length .., (ofBigEndian_bigEndian x.bits.toNat_lt).symm⟩

theorem decodeText_utf8 (s : String) : decodeText (Text.utf8 s) = .ok s := by
  have hs : (⟨(Text.utf8 s).toArray⟩ : ByteArray) = s.toUTF8 := by
    unfold Text.utf8
    rw [Array.toArray_toList]
  have hvalid : s.toUTF8.IsValidUTF8 := s.isValidUTF8
  unfold decodeText Text.ofUtf8? String.fromUTF8?
  rw [hs, dif_pos hvalid]
  rfl

theorem decodeText_eq_ok {bytes : List UInt8} {s : String} : decodeText bytes = .ok s ↔ bytes = Text.utf8 s := by
  constructor
  · intro h
    unfold decodeText Text.ofUtf8? String.fromUTF8? at h
    split at h
    · rename_i hs
      split at hs
      · cases hs
        cases h
        rfl
      · cases hs
    · cases h
  · rintro rfl
    exact decodeText_utf8 s

end ClaimRelay.Binary
