import ClaimRelay.Proofs.Binary.Element

/-!
# The shortest spelling

A number has many spellings. The one that is written is what is left of any other when the leading bytes that add
nothing are stripped, so it is never the longer one; and the header of an element is the shortest of its length.
-/

namespace ClaimRelay.Binary

/-! ## Numbers -/

theorem ofBigEndian_injective : ∀ {xs ys : List UInt8}, xs.length = ys.length → ofBigEndian xs = ofBigEndian ys →
    xs = ys
  | [], [], _, _ => rfl
  | x :: xs, y :: ys, hl, h => by
    have hl : xs.length = ys.length := Nat.succ.inj hl
    have hx := ofBigEndian_lt xs
    have hy := ofBigEndian_lt ys
    rw [ofBigEndian_cons, ofBigEndian_cons, hl] at h
    rw [hl] at hx
    -- the first byte is the quotient by what the others can make up, and these are the remainder
    have hfirst : x.toNat = y.toNat := by
      have := congrArg (· / Nat.pow 256 ys.length) h
      simpa only [Nat.mul_comm _ (Nat.pow 256 _), Nat.mul_add_div (Nat.lt_of_le_of_lt (Nat.zero_le _) hx),
        Nat.div_eq_of_lt hx, Nat.div_eq_of_lt hy, Nat.add_zero] using this
    rw [hfirst, Nat.add_left_cancel_iff] at h
    rw [UInt8.toNat_inj.mp hfirst, ofBigEndian_injective hl h]

theorem signedValue_injective {xs ys : List UInt8} (hl : xs.length = ys.length) (h : signedValue xs = signedValue ys) :
    xs = ys := by
  have hx := ofBigEndian_lt xs
  have hy := ofBigEndian_lt ys
  unfold signedValue at h
  rw [hl] at h hx
  apply ofBigEndian_injective hl
  split at h <;> split at h <;> omega

theorem stripZeros_bigEndian {bytes : List UInt8} (hlen : 1 ≤ bytes.length ∧ bytes.length ≤ 8) :
    stripZeros (bigEndian 8 (ofBigEndian bytes)) = stripZeros bytes := by
  obtain ⟨padded, hl, hs, hv⟩ := strips_zeros.exists_padded hlen
  have hspan : ofBigEndian padded < Nat.pow 256 8 := hl ▸ ofBigEndian_lt padded
  have heq : bigEndian 8 (ofBigEndian padded) = padded := by
    apply ofBigEndian_injective
    · rw [bigEndian_length, hl]
    · rw [ofBigEndian_bigEndian hspan]
  rw [← hv, heq, hs]

theorem encodeUnsigned_eq {v : UInt64} {bytes : List UInt8} (hlen : 1 ≤ bytes.length ∧ bytes.length ≤ 8)
    (hv : v.toNat = ofBigEndian bytes) : encodeUnsigned v = stripZeros bytes := by
  rw [encodeUnsigned, hv, stripZeros_bigEndian hlen]

theorem encodeSigned_eq {v : Int64} {bytes : List UInt8} (hlen : 1 ≤ bytes.length ∧ bytes.length ≤ 8)
    (hv : v.toInt = signedValue bytes) : encodeSigned v = stripSign bytes := by
  obtain ⟨padded, hl, hs, hvalue⟩ := strips_sign.exists_padded hlen
  have heq : bigEndian 8 v.toUInt64.toNat = padded := by
    apply signedValue_injective
    · rw [bigEndian_length, hl]
    · rw [signedValue_bigEndian, hv, hvalue]
  rw [encodeSigned, heq, hs]

/-! ## Elements -/

theorem LengthOf.lt_size {n : Nat} {length : List UInt8} (d : LengthOf n length) : n < UInt64.size := by
  cases d with
  | short h => exact Nat.lt_trans h (by decide)
  | long digits h =>
    have hspan : Nat.pow 256 digits.length ≤ Nat.pow 256 8 := Nat.pow_le_pow_right (by decide) h.2
    exact size_eq ▸ Nat.lt_of_lt_of_le (ofBigEndian_lt digits) hspan

theorem eq_or_shorter_of_suffix {back bytes : List UInt8} (h : back <:+ bytes) :
    bytes = back ∨ back.length < bytes.length := by
  rcases Nat.eq_or_lt_of_le h.length_le with heq | hlt
  · exact .inl (h.eq_of_length heq).symm
  · exact .inr hlt

theorem LengthOf.fewest {n : Nat} {length : List UInt8} (d : LengthOf n length) :
    length = lengthBytes n ∨ (lengthBytes n).length < length.length := by
  unfold lengthBytes
  cases d with
  | short h => exact .inl (if_pos h).symm
  | long digits h =>
    by_cases hn : ofBigEndian digits < 0x80
    · rw [if_pos hn]
      exact .inr (Nat.succ_lt_succ h.1)
    · rw [if_neg hn, stripZeros_bigEndian h]
      rcases eq_or_shorter_of_suffix (strips_zeros.suffix (List.ne_nil_of_length_pos h.1)) with heq | hlt
      · rw [← heq]
        exact .inl rfl
      · exact .inr (Nat.succ_lt_succ hlt)

theorem lengthBytes_le {n : Nat} {length : List UInt8} (d : LengthOf n length) :
    (lengthBytes n).length ≤ length.length := by
  rcases d.fewest with heq | hlt
  · exact Nat.le_of_eq (congrArg List.length heq.symm)
  · exact Nat.le_of_lt hlt

variable {tag : Tag} {body shorter bytes : List UInt8}

theorem ElementOf.lt_size (e : ElementOf tag.byte body bytes) : body.length < UInt64.size := e.exact.lt_size

theorem ElementOf.element_le (e : ElementOf tag.byte body bytes) (h : shorter.length ≤ body.length) :
    (element tag shorter).length ≤ bytes.length := by
  obtain ⟨d, rfl⟩ := e
  have hle := lengthBytes_le d
  have hmono := lengthBytes_mono h d.lt_size
  rw [element_length, List.length_cons, List.length_append]
  omega

end ClaimRelay.Binary
