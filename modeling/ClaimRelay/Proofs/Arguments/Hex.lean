import ClaimRelay.Proofs.Arguments.Parts
import Mathlib.Data.String.Basic

/-!
# Bytes among the arguments

Bytes are spelled `h'..'`, two digits for each. A pair is read as a number of its own, and numbers may carry a
plus sign, so `+a` passes for a pair too: the bodies that are taken are those of digits and of such pairs, and
only without a plus sign are they those of digits alone.
-/

namespace ClaimRelay

/-! ## Digits -/

namespace Text

def IsHexDigit (c : Char) : Prop := '0' ≤ c ∧ c ≤ '9' ∨ 'a' ≤ c ∧ c ≤ 'f' ∨ 'A' ≤ c ∧ c ≤ 'F'

/-- The value of a digit is the place of its lower case among the digits. -/
def HexDigit (c : Char) (v : Nat) : Prop := v < 16 ∧ c.toLower = v.digitChar

theorem exists_hexValue?_iff {c : Char} : (∃ v, hexValue? c = some v) ↔ IsHexDigit c := by
  unfold hexValue? IsHexDigit
  by_cases hdecimal : '0' ≤ c ∧ c ≤ '9'
  · simp [hdecimal]
  · by_cases hlower : 'a' ≤ c ∧ c ≤ 'f'
    · simp [hdecimal, hlower]
    · by_cases hupper : 'A' ≤ c ∧ c ≤ 'F' <;> simp [hdecimal, hlower, hupper]

theorem forall_ascii {P : Char → Prop} (h : ∀ n < 128, P (Char.ofNat n)) : ∀ c : Char, c.toNat < 128 → P c := by
  intro c hc
  rw [← Char.ofNat_toNat c]
  exact h c.toNat hc

theorem IsHexDigit.toNat_lt {c : Char} (h : IsHexDigit c) : c.toNat < 128 := by
  have hbelow : ∀ bound : Char, bound.toNat < 128 → c ≤ bound → c.toNat < 128 :=
    fun bound hbound hc => Nat.lt_of_le_of_lt hc hbound
  obtain h | h | h := h
  · exact hbelow '9' (by decide) h.2
  · exact hbelow 'f' (by decide) h.2
  · exact hbelow 'F' (by decide) h.2

theorem HexDigit.toNat_lt {c : Char} {v : Nat} (h : HexDigit c v) : c.toNat < 128 := by
  have hdigits : ∀ v < 16, v.digitChar.toNat < 128 := by decide
  have hc := h.2
  unfold Char.toLower at hc
  split at hc
  · rename_i hupper
    exact Nat.lt_of_le_of_lt hupper.2 (by decide)
  · rw [hc]
    exact hdigits v h.1

theorem hexValue?_lt {c : Char} {v : Nat} (h : hexValue? c = some v) : v < 16 := by
  have htable : ∀ c : Char, c.toNat < 128 → ∀ v ∈ hexValue? c, v < 16 := forall_ascii (by decide +kernel)
  exact htable c (exists_hexValue?_iff.mp ⟨v, h⟩).toNat_lt v h

theorem hexValue?_eq_some {c : Char} {v : Nat} : hexValue? c = some v ↔ HexDigit c v := by
  have htable : ∀ c : Char, c.toNat < 128 → ∀ v < 16, hexValue? c = some v ↔ c.toLower = v.digitChar :=
    forall_ascii (by decide +kernel)
  constructor
  · intro h
    have hv := hexValue?_lt h
    exact ⟨hv, (htable c (exists_hexValue?_iff.mp ⟨v, h⟩).toNat_lt v hv).mp h⟩
  · intro h
    exact (htable c h.toNat_lt v h.1).mpr h.2

theorem exists_hexDigit_iff {c : Char} : (∃ v, HexDigit c v) ↔ IsHexDigit c := by
  simp only [← hexValue?_eq_some, exists_hexValue?_iff]

theorem HexDigit.isHexDigit {c : Char} {v : Nat} (h : HexDigit c v) : IsHexDigit c := exists_hexDigit_iff.mp ⟨v, h⟩

end Text

/-! ## Pairs -/

namespace Argument

inductive HexPair : Char → Char → UInt8 → Prop
  | digits {high low : Char} {h l : Nat} (hhigh : Text.HexDigit high h) (hlow : Text.HexDigit low l) :
      HexPair high low (UInt8.ofNat (16 * h + l))
  | plus {low : Char} {l : Nat} (hlow : Text.HexDigit low l) : HexPair '+' low (UInt8.ofNat l)

theorem hexByte?_eq_some {high low : Char} {b : UInt8} : hexByte? high low = some b ↔ HexPair high low b := by
  constructor
  · intro h
    obtain ⟨l, hlow, h⟩ := Option.bind_eq_some_iff.mp h
    have hlow := Text.hexValue?_eq_some.mp hlow
    split at h
    · rename_i hplus
      cases h
      exact hplus ▸ .plus hlow
    · obtain ⟨v, hhigh, h⟩ := Option.bind_eq_some_iff.mp h
      cases h
      exact .digits (Text.hexValue?_eq_some.mp hhigh) hlow
  · intro h
    cases h with
    | digits hhigh hlow =>
      have hsign : high ≠ '+' := by
        rintro rfl
        cases Text.hexValue?_eq_some.mpr hhigh
      unfold hexByte?
      rw [Text.hexValue?_eq_some.mpr hhigh, Text.hexValue?_eq_some.mpr hlow]
      exact if_neg hsign
    | plus hlow =>
      unfold hexByte?
      rw [Text.hexValue?_eq_some.mpr hlow]
      rfl

/-- Each byte is that of the two characters at twice its place, and there are no other characters. -/
def HexBytes (body : List Char) (bytes : List UInt8) : Prop :=
  body.length = 2 * bytes.length ∧ ∀ i b, bytes[i]? = some b →
    ∃ high low, body[2 * i]? = some high ∧ body[2 * i + 1]? = some low ∧ HexPair high low b

theorem hexBytes_nil : HexBytes [] [] :=
  ⟨rfl, fun i b hb => by cases hb⟩

theorem not_hexBytes_singleton {c : Char} {bytes : List UInt8} : ¬HexBytes [c] bytes := by
  intro h
  have hlength := h.1
  rw [List.length_singleton] at hlength
  omega

theorem hexBytes_cons {high low : Char} {body : List Char} {b : UInt8} {bytes : List UInt8} :
    HexBytes (high :: low :: body) (b :: bytes) ↔ HexPair high low b ∧ HexBytes body bytes := by
  constructor
  · intro h
    obtain ⟨hlength, hpairs⟩ := h
    refine ⟨?_, ?_, fun i b' hb => ?_⟩
    · obtain ⟨high', low', hhigh, hlow, hpair⟩ := hpairs 0 b rfl
      cases hhigh
      cases hlow
      exact hpair
    · simp only [List.length_cons] at hlength
      omega
    · exact hpairs (i + 1) b' hb
  · intro h
    obtain ⟨hpair, hlength, hpairs⟩ := h
    refine ⟨?_, fun i b' hb => ?_⟩
    · simp only [List.length_cons]
      omega
    · cases i with
      | zero =>
        cases hb
        exact ⟨high, low, rfl, rfl, hpair⟩
      | succ i => exact hpairs i b' hb

theorem hexBytes?_eq_some {body : List Char} {bytes : List UInt8} :
    hexBytes? body = some bytes ↔ HexBytes body bytes := by
  induction body using hexBytes?.induct generalizing bytes with
  | case1 =>
    cases bytes with
    | nil => exact iff_of_true rfl hexBytes_nil
    | cons b bytes => exact iff_of_false (by simp [hexBytes?]) (fun h => by cases h.1)
  | case2 c => exact iff_of_false (by simp [hexBytes?]) not_hexBytes_singleton
  | case3 high low rest ih =>
    constructor
    · intro h
      obtain ⟨b, hb, h⟩ := Option.bind_eq_some_iff.mp h
      obtain ⟨tail, htail, h⟩ := Option.bind_eq_some_iff.mp h
      cases h
      exact hexBytes_cons.mpr ⟨hexByte?_eq_some.mp hb, ih.mp htail⟩
    · intro h
      cases bytes with
      | nil => cases h.1
      | cons b bytes =>
        obtain ⟨hpair, hrest⟩ := hexBytes_cons.mp h
        rw [hexBytes?, hexByte?_eq_some.mpr hpair, ih.mpr hrest]
        rfl

theorem exists_hexPair_iff {high low : Char} :
    (∃ b, HexPair high low b) ↔ (high = '+' ∨ Text.IsHexDigit high) ∧ Text.IsHexDigit low := by
  constructor
  · intro h
    obtain ⟨b, hpair⟩ := h
    cases hpair with
    | digits hhigh hlow => exact ⟨.inr hhigh.isHexDigit, hlow.isHexDigit⟩
    | plus hlow => exact ⟨.inl rfl, hlow.isHexDigit⟩
  · intro h
    obtain ⟨hhigh, hlow⟩ := h
    obtain ⟨l, hlow⟩ := Text.exists_hexDigit_iff.mpr hlow
    obtain rfl | hhigh := hhigh
    · exact ⟨_, .plus hlow⟩
    · obtain ⟨v, hhigh⟩ := Text.exists_hexDigit_iff.mpr hhigh
      exact ⟨_, .digits hhigh hlow⟩

theorem hexBytes_chars {body : List Char} {bytes : List UInt8} (h : HexBytes body bytes) :
    body.length % 2 = 0 ∧ ∀ c ∈ body, c = '+' ∨ Text.IsHexDigit c := by
  refine ⟨by have := h.1; omega, ?_⟩
  induction body using hexBytes?.induct generalizing bytes with
  | case1 => exact List.forall_mem_nil _
  | case2 c => exact absurd h not_hexBytes_singleton
  | case3 high low rest ih =>
    cases bytes with
    | nil => cases h.1
    | cons b bytes =>
      obtain ⟨hpair, hrest⟩ := hexBytes_cons.mp h
      obtain ⟨hhigh, hlow⟩ := exists_hexPair_iff.mp ⟨b, hpair⟩
      exact List.forall_mem_cons.mpr ⟨hhigh, List.forall_mem_cons.mpr ⟨.inr hlow, ih hrest⟩⟩

theorem exists_hexBytes {body : List Char} (heven : body.length % 2 = 0) (h : ∀ c ∈ body, Text.IsHexDigit c) :
    ∃ bytes, HexBytes body bytes := by
  induction body using hexBytes?.induct with
  | case1 => exact ⟨[], hexBytes_nil⟩
  | case2 c => cases heven
  | case3 high low rest ih =>
    obtain ⟨hhigh, h⟩ := List.forall_mem_cons.mp h
    obtain ⟨hlow, h⟩ := List.forall_mem_cons.mp h
    obtain ⟨bytes, hrest⟩ := ih (by simp only [List.length_cons] at heven; omega) h
    obtain ⟨b, hpair⟩ := exists_hexPair_iff.mpr ⟨.inr hhigh, hlow⟩
    exact ⟨b :: bytes, hexBytes_cons.mpr ⟨hpair, hrest⟩⟩

end Argument

/-! ## Slices by byte offsets -/

namespace Text

def isAscii (cs : List Char) : Bool := cs.all fun c => c.toNat < 128

theorem isAscii_iff {cs : List Char} : isAscii cs = true ↔ ∀ c ∈ cs, c.toNat < 128 := by
  unfold isAscii
  rw [List.all_eq_true]
  exact forall₂_congr fun c _ => decide_eq_true_iff

/-- The text from a byte offset on; there is none from within a character. -/
def dropBytes? : List Char → Nat → Option (List Char)
  | cs, 0 => some cs
  | [], _ + 1 => none
  | c :: cs, n + 1 => if c.utf8Size ≤ n + 1 then dropBytes? cs (n + 1 - c.utf8Size) else none

/-- The text up to a byte offset. -/
def takeBytes? : List Char → Nat → Option (List Char)
  | _, 0 => some []
  | [], _ + 1 => none
  | c :: cs, n + 1 =>
    if c.utf8Size ≤ n + 1 then (takeBytes? cs (n + 1 - c.utf8Size)).map (c :: ·) else none

/-- Where a text has no slice: its ends are out of order, or one is not between two characters. -/
structure SliceFault where
  start : Nat
  stop : Nat

def slice (cs : List Char) (start stop : Nat) : Except SliceFault (List Char) :=
  match if start ≤ stop then (dropBytes? cs start).bind (takeBytes? · (stop - start)) else none with
  | some part => .ok part
  | none => .error ⟨start, stop⟩

theorem dropBytes?_cons (c : Char) (cs : List Char) (n : Nat) :
    dropBytes? (c :: cs) (n + c.utf8Size) = dropBytes? cs n := by
  obtain ⟨k, hk⟩ := Nat.exists_eq_add_of_lt c.utf8Size_pos
  have hoffset : n + c.utf8Size = n + k + 1 := by omega
  rw [hoffset, dropBytes?, if_pos (by omega), ← hoffset, Nat.add_sub_cancel]

theorem takeBytes?_cons (c : Char) (cs : List Char) (n : Nat) :
    takeBytes? (c :: cs) (n + c.utf8Size) = (takeBytes? cs n).map (c :: ·) := by
  obtain ⟨k, hk⟩ := Nat.exists_eq_add_of_lt c.utf8Size_pos
  have hoffset : n + c.utf8Size = n + k + 1 := by omega
  rw [hoffset, takeBytes?, if_pos (by omega), ← hoffset, Nat.add_sub_cancel]

theorem dropBytes?_append (front rest : List Char) :
    dropBytes? (front ++ rest) (String.utf8Len front) = some rest := by
  induction front with
  | nil => cases rest <;> rfl
  | cons c front ih => exact (dropBytes?_cons c (front ++ rest) (String.utf8Len front)).trans ih

theorem takeBytes?_append (part rest : List Char) :
    takeBytes? (part ++ rest) (String.utf8Len part) = some part := by
  induction part with
  | nil => cases rest <;> rfl
  | cons c part ih => exact (takeBytes?_cons c (part ++ rest) (String.utf8Len part)).trans (congrArg _ ih)

theorem slice_append (front part rest : List Char) :
    slice (front ++ (part ++ rest)) (String.utf8Len front) (String.utf8Len front + String.utf8Len part) =
      .ok part := by
  unfold slice
  rw [if_pos (Nat.le_add_right _ _), dropBytes?_append, Nat.add_sub_cancel_left, Option.bind_some, takeBytes?_append]

theorem utf8Len_of_ascii {cs : List Char} (h : ∀ c ∈ cs, c.toNat < 128) : String.utf8Len cs = cs.length := by
  induction cs with
  | nil => rfl
  | cons c cs ih =>
    obtain ⟨hc, hcs⟩ := List.forall_mem_cons.mp h
    have hone : c.utf8Size = 1 := Char.utf8Size_eq_one_iff.mpr (Nat.le_of_lt_succ hc)
    rw [String.utf8Len_cons, hone, ih hcs, List.length_cons]

def unsigned : List Char → List Char
  | '+' :: cs => cs
  | cs => cs

/-- A byte as hexadecimal numbers are read: digits, at least one, after a plus sign or none. -/
def byteOfDigits? (cs : List Char) : Option UInt8 := do
  let values ← (unsigned cs).mapM hexValue?
  let n := values.foldl (fun n v => 16 * n + v) 0
  if values ≠ [] ∧ n < 256 then return UInt8.ofNat n else none

theorem unsigned_cons {c : Char} (h : c ≠ '+') (cs : List Char) : unsigned (c :: cs) = c :: cs := by
  unfold unsigned
  split
  · rename_i heq
    exact absurd (List.cons.inj heq).1 h
  · rfl

end Text

namespace Argument

def bytesOfSlices (body : List Char) : Nat → Nat → Except Text.SliceFault (Option (List UInt8))
  | _, 0 => return some []
  | start, pairs + 1 => do
    match Text.byteOfDigits? (← Text.slice body start (start + 2)) with
    | some b => return (← bytesOfSlices body (start + 2) pairs).map (b :: ·)
    | none => return none

/-- The bytes of a body as they are read by its offsets, two at a time. -/
def hexBySlices (body : List Char) : Except Text.SliceFault (Option (List UInt8)) :=
  if String.utf8Len body % 2 = 0 ∧ Text.isAscii body then bytesOfSlices body 0 (String.utf8Len body / 2)
  else return none

theorem byteOfDigits?_pair (high low : Char) : Text.byteOfDigits? [high, low] = hexByte? high low := by
  unfold Text.byteOfDigits? hexByte?
  by_cases hplus : high = '+'
  · subst hplus
    cases hlow : Text.hexValue? low with
    | none => simp [Text.unsigned, hlow]
    | some l =>
      have hl := Text.hexValue?_lt hlow
      have hfits : l < 256 := by omega
      simp [Text.unsigned, hlow, hfits]
  · rw [Text.unsigned_cons hplus]
    cases hhigh : Text.hexValue? high with
    | none => cases hlow : Text.hexValue? low <;> simp [hplus, hhigh, hlow]
    | some h =>
      cases hlow : Text.hexValue? low with
      | none => simp [hhigh, hlow]
      | some l =>
        have hh := Text.hexValue?_lt hhigh
        have hl := Text.hexValue?_lt hlow
        have hfits : 16 * h + l < 256 := by omega
        simp [hplus, hhigh, hlow, hfits]

theorem bytesOfSlices_eq (front : List Char) {rest : List Char} (hascii : ∀ c ∈ rest, c.toNat < 128)
    (heven : rest.length % 2 = 0) :
    bytesOfSlices (front ++ rest) (String.utf8Len front) (rest.length / 2) = .ok (hexBytes? rest) := by
  induction rest using hexBytes?.induct generalizing front with
  | case1 => rfl
  | case2 c => cases heven
  | case3 high low rest ih =>
    obtain ⟨hpair, hrest⟩ := List.forall_mem_append.mp (show ∀ c ∈ [high, low] ++ rest, c.toNat < 128 from hascii)
    have htwo : String.utf8Len [high, low] = 2 := Text.utf8Len_of_ascii hpair
    have hslice : Text.slice (front ++ high :: low :: rest) (String.utf8Len front) (String.utf8Len front + 2) =
        .ok [high, low] := htwo ▸ Text.slice_append front [high, low] rest
    have hnext : bytesOfSlices (front ++ high :: low :: rest) (String.utf8Len front + 2) (rest.length / 2) =
        .ok (hexBytes? rest) := by
      have hrest := ih (front ++ [high, low]) hrest (by simp only [List.length_cons] at heven; omega)
      rwa [String.utf8Len_append, htwo, List.append_assoc] at hrest
    have hcount : (high :: low :: rest).length / 2 = rest.length / 2 + 1 := by
      simp only [List.length_cons]
      omega
    rw [hcount, bytesOfSlices, hslice, hexBytes?, ← byteOfDigits?_pair]
    simp only [hnext, bind, Except.bind]
    cases Text.byteOfDigits? [high, low] with
    | none => rfl
    | some b => cases hexBytes? rest <;> rfl

/-- No offset at which a body is cut is within a character, and the cuts give the pairs. -/
theorem hexBySlices_eq (body : List Char) : hexBySlices body = .ok (hexBytes? body) := by
  unfold hexBySlices
  split
  · rename_i h
    have hascii := Text.isAscii_iff.mp h.2
    have hsize := Text.utf8Len_of_ascii hascii
    rw [hsize] at h ⊢
    exact bytesOfSlices_eq [] hascii h.1
  · rename_i h
    cases hbytes : hexBytes? body with
    | none => rfl
    | some bytes =>
      obtain ⟨heven, hchars⟩ := hexBytes_chars (hexBytes?_eq_some.mp hbytes)
      have hascii : ∀ c ∈ body, c.toNat < 128 := by
        intro c hc
        obtain rfl | hdigit := hchars c hc
        · decide
        · exact hdigit.toNat_lt
      exact absurd ⟨(Text.utf8Len_of_ascii hascii).symm ▸ heven, Text.isAscii_iff.mpr hascii⟩ h

-- Not every text of even size can be cut: its first two bytes end within the second character.
example : bytesOfSlices "1é2".toList 0 2 = .error ⟨0, 2⟩ := rfl

/-! ## Arguments -/

/-- Without a plus sign in it, a body is taken if it is an even number of digits. -/
theorem exists_hexBytes_iff {body : List Char} (h : '+' ∉ body) :
    (∃ bytes, HexBytes body bytes) ↔ body.length % 2 = 0 ∧ ∀ c ∈ body, Text.IsHexDigit c := by
  constructor
  · intro hbytes
    obtain ⟨bytes, hbytes⟩ := hbytes
    obtain ⟨heven, hchars⟩ := hexBytes_chars hbytes
    exact ⟨heven, fun c hc => (hchars c hc).resolve_left fun hplus => h (hplus ▸ hc)⟩
  · intro hbody
    exact exists_hexBytes hbody.1 hbody.2

theorem value_hex (argument : String) (body : List Char) :
    value argument ('h' :: '\'' :: (body ++ ['\''])) =
      match hexBytes? body with
      | some bytes => .ok (.bytes bytes)
      | none => .error (.invalidHex argument) := by
  have hbody : between? ['h', '\''] ('h' :: '\'' :: (body ++ ['\''])) = some body := between?_append _ body
  refine (value_eq (not_word rfl (by decide))).trans ?_
  cases hbytes : hexBytes? body <;> simp only [hbody, hbytes]

theorem claim_quoted_hex {label : String} {l : Label} (hl : SpellsLabel label l) (body : String) :
    claim (label ++ ":h'" ++ body ++ "'") =
      match hexBytes? body.toList with
      | some bytes => .ok ⟨l, .bytes bytes⟩
      | none => .error (.invalidHex (label ++ ":h'" ++ body ++ "'")) := by
  have hchars : (label ++ ":h'" ++ body ++ "'").toList =
      label.toList ++ ':' :: 'h' :: '\'' :: (body.toList ++ ['\'']) := by
    simp [String.toList_append]
  rw [claim_eq hl hchars, value_hex]
  cases hexBytes? body.toList <;> rfl

/-- **Bytes.** With any label, and with any text between the quotes. -/
theorem claim_hex {label : String} {l : Label} (hl : SpellsLabel label l) (body : String) :
    (∀ c, claim (label ++ ":h'" ++ body ++ "'") = .ok c ↔
      ∃ bytes, HexBytes body.toList bytes ∧ c = ⟨l, .bytes bytes⟩) ∧
    ((¬∃ bytes, HexBytes body.toList bytes) → claim (label ++ ":h'" ++ body ++ "'") =
      .error (.invalidHex (label ++ ":h'" ++ body ++ "'"))) ∧
    ('+' ∉ body.toList → ((∃ bytes, HexBytes body.toList bytes) ↔
      body.length % 2 = 0 ∧ ∀ c ∈ body.toList, Text.IsHexDigit c)) ∧
    hexBySlices body.toList = .ok (hexBytes? body.toList) := by
  have hclaim := claim_quoted_hex hl body
  refine ⟨fun c => ?_, fun hnone => ?_, exists_hexBytes_iff, hexBySlices_eq body.toList⟩
  · simp only [hclaim, ← hexBytes?_eq_some]
    cases hexBytes? body.toList with
    | none => simp
    | some bytes => simp [eq_comm]
  · cases hbytes : hexBytes? body.toList with
    | none =>
      rw [hbytes] at hclaim
      exact hclaim
    | some bytes => exact absurd ⟨bytes, hexBytes?_eq_some.mp hbytes⟩ hnone

theorem claim_hex_sample : SpellsLabel "-7" (-7) ∧ '+' ∉ "0aFf".toList ∧
    (¬∃ bytes, HexBytes "1é2".toList bytes) ∧ claim "-7:h'0aFf'" = .ok ⟨-7, .bytes [10, 255]⟩ ∧
    (∀ c ∈ "0aFf".toList, Text.IsHexDigit c) ∧
    claim "-7:h'1é2'" = .error (.invalidHex "-7:h'1é2'") ∧ hexBySlices "1é2".toList = .ok none := by
  have hlabel : SpellsLabel "-7" (-7) := rfl
  have hplus : '+' ∉ "0aFf".toList := by decide
  have hbytes : HexBytes "0aFf".toList [10, 255] := hexBytes?_eq_some.mp rfl
  have hnone : ¬∃ bytes, HexBytes "1é2".toList bytes := by
    intro h
    obtain ⟨bytes, h⟩ := h
    cases hexBytes?_eq_some.mpr h
  obtain ⟨htaken, -, hdigits, -⟩ := claim_hex hlabel "0aFf"
  obtain ⟨-, hrefused, -, hslices⟩ := claim_hex hlabel "1é2"
  exact ⟨hlabel, hplus, hnone, (htaken _).mpr ⟨_, hbytes, rfl⟩, ((hdigits hplus).mp ⟨_, hbytes⟩).2,
    hrefused hnone, hslices⟩

/-- The sign of a number in the place of a digit. -/
theorem claim_plus_hex : claim "1:h'+a'" = .ok ⟨1, .bytes [10]⟩ ∧ ¬Text.IsHexDigit '+' := by
  refine ⟨rfl, ?_⟩
  unfold Text.IsHexDigit
  decide

end Argument

end ClaimRelay
