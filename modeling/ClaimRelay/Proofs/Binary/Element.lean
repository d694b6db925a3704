import ClaimRelay.Proofs.Binary.Spelling

/-!
# Elements read back

An element is split off from whatever follows it, and a longer body never has a shorter header. Both need
lengths that eight bytes hold: of a longer one only the last eight would be written.
-/

namespace ClaimRelay.Binary

/-! ## Lengths -/

theorem size_eq : UInt64.size = Nat.pow 256 8 := by decide

theorem lengthDigits_length (n : Nat) :
    1 ≤ (stripZeros (bigEndian 8 n)).length ∧ (stripZeros (bigEndian 8 n)).length ≤ 8 := by
  have := strips_zeros.length (bigEndian_ne_nil n)
  rwa [bigEndian_length] at this

theorem lengthOf_lengthBytes {n : Nat} (h : n < UInt64.size) : Nonempty (LengthOf n (lengthBytes n)) := by
  unfold lengthBytes
  by_cases hn : n < 0x80
  · rw [if_pos hn]
    exact ⟨.short hn⟩
  · have hvalue : ofBigEndian (stripZeros (bigEndian 8 n)) = n := by
      rw [strips_zeros.value_strip (bigEndian_ne_nil _), ofBigEndian_bigEndian (size_eq ▸ h)]
    have d := LengthOf.long _ (lengthDigits_length n)
    rw [hvalue] at d
    rw [if_neg hn]
    exact ⟨d⟩

/-- Digits without a leading zero are as many as the number needs. -/
theorem le_ofBigEndian_stripZeros : ∀ bytes : List UInt8, 2 ≤ (stripZeros bytes).length →
    Nat.pow 256 ((stripZeros bytes).length - 1) ≤ ofBigEndian (stripZeros bytes)
  | [], h => absurd h (by decide)
  | [_], h => absurd h (Nat.not_succ_le_self 1)
  | a :: b :: rest, h => by
    rw [stripZeros] at h ⊢
    by_cases ha : a = 0x00
    · rw [if_pos ha] at h ⊢
      exact le_ofBigEndian_stripZeros (b :: rest) h
    · rw [if_neg ha, ofBigEndian_cons]
      have hpos : 1 ≤ a.toNat := by
        have : a.toNat ≠ 0 := fun h0 => ha (UInt8.toNat_inj.mp h0)
        omega
      have := Nat.mul_le_mul_right (Nat.pow 256 (b :: rest).length) hpos
      rw [Nat.one_mul] at this
      exact Nat.le_trans this (Nat.le_add_right ..)

theorem lengthDigits_mono {n m : Nat} (h : n ≤ m) (hm : m < UInt64.size) :
    (stripZeros (bigEndian 8 n)).length ≤ (stripZeros (bigEndian 8 m)).length := by
  have value : ∀ {k : Nat}, k < UInt64.size → ofBigEndian (stripZeros (bigEndian 8 k)) = k := fun hk => by
    rw [strips_zeros.value_strip (bigEndian_ne_nil _), ofBigEndian_bigEndian (size_eq ▸ hk)]
  have hlt := ofBigEndian_lt (stripZeros (bigEndian 8 m))
  have hle := le_ofBigEndian_stripZeros (bigEndian 8 n)
  obtain ⟨h₁, -⟩ := lengthDigits_length m
  rw [value hm] at hlt
  rw [value (Nat.lt_of_le_of_lt h hm)] at hle
  apply Nat.le_of_not_lt
  intro hgt
  have hpow : Nat.pow 256 (stripZeros (bigEndian 8 m)).length ≤
      Nat.pow 256 ((stripZeros (bigEndian 8 n)).length - 1) :=
    Nat.pow_le_pow_right (by decide) (by omega)
  have := hle (by omega)
  omega

theorem lengthBytes_mono {n m : Nat} (h : n ≤ m) (hm : m < UInt64.size) :
    (lengthBytes n).length ≤ (lengthBytes m).length := by
  unfold lengthBytes
  by_cases hm80 : m < 0x80
  · rw [if_pos hm80, if_pos (Nat.lt_of_le_of_lt h hm80)]
    exact Nat.le_refl _
  · rw [if_neg hm80]
    by_cases hn80 : n < 0x80
    · rw [if_pos hn80]
      exact Nat.le_add_left ..
    · rw [if_neg hn80]
      exact Nat.succ_le_succ (lengthDigits_mono h hm)

/-! ## Elements -/

variable (tag : Tag)

theorem element_length (body : List UInt8) :
    (element tag body).length = 1 + (lengthBytes body.length).length + body.length := by
  unfold element header
  rw [List.length_append, List.length_cons, Nat.add_comm 1]

theorem body_lt_element (body : List UInt8) : body.length < (element tag body).length := by
  rw [element_length]
  omega

theorem element_length_mono {shorter longer : List UInt8} (h : shorter.length ≤ longer.length)
    (hl : longer.length < UInt64.size) : (element tag shorter).length ≤ (element tag longer).length := by
  have := lengthBytes_mono h hl
  rw [element_length, element_length]
  omega

theorem element_length_strict {shorter longer : List UInt8} (h : shorter.length < longer.length)
    (hl : longer.length < UInt64.size) : (element tag shorter).length < (element tag longer).length := by
  have := lengthBytes_mono (Nat.le_of_lt h) hl
  rw [element_length, element_length]
  omega

theorem elementOf_element {body : List UInt8} (h : body.length < UInt64.size) :
    Nonempty (ElementOf tag.byte body (element tag body)) := by
  obtain ⟨d⟩ := lengthOf_lengthBytes h
  exact ⟨d, rfl⟩

theorem splitElement_element {body : List UInt8} (h : body.length < UInt64.size) (rest : List UInt8) :
    splitElement (element tag body ++ rest) = .ok (⟨tag.byte, body⟩, rest) := by
  obtain ⟨d⟩ := elementOf_element tag h
  exact splitElement_of d rest

end ClaimRelay.Binary
