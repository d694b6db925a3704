import ClaimRelay.Decimal.Layout

/-!
# Digits of decimals

The digits of a natural have no leading zero, no two integers have the same text, and the shortest decimal of a
double that is not zero is not zero.
-/

namespace ClaimRelay.Decimal

/-! ## Naturals -/

theorem toDigits_injective {a b : Nat} (h : Nat.toDigits 10 a = Nat.toDigits 10 b) : a = b := by
  have hvalue := congrArg (Nat.ofDigitChars 10 · 0) h
  simpa only [Nat.ofDigitChars_ten_toDigits] using hvalue

theorem not_mem_toDigits {c : Char} (hc : c.isDigit = false) (n : Nat) : c ∉ Nat.toDigits 10 n := by
  intro h
  rw [Nat.isDigit_of_mem_toDigits (by decide) (by decide) h] at hc
  cases hc

theorem head_toDigits {n : Nat} (hn : n ≠ 0) : (Nat.toDigits 10 n).head? ≠ some '0' := by
  induction n using Nat.strongRecOn with
  | _ n ih =>
    by_cases hlt : n < 10
    · rw [Nat.toDigits_of_lt_base hlt]
      have hdigit : ∀ k < 10, k ≠ 0 → k.digitChar ≠ '0' := by decide
      exact fun h => hdigit n hlt hn (Option.some.inj h)
    · have hhead := ih (n / 10) (by omega) (by omega)
      rw [Nat.toDigits_of_base_le (by decide) (Nat.le_of_not_lt hlt)]
      cases hdigits : Nat.toDigits 10 (n / 10) with
      | nil => exact absurd hdigits Nat.toDigits_ne_nil
      | cons c rest => rwa [hdigits] at hhead

/-! ## Integers -/

theorem toList_toString (i : Int) : (toString i).toList =
    if 0 ≤ i then Nat.toDigits 10 i.toNat else '-' :: Nat.toDigits 10 (-i).toNat := by
  show i.repr.toList = _
  rw [Int.repr_eq_if]
  by_cases hi : 0 ≤ i
  · rw [if_pos hi, if_pos hi, Nat.toList_repr]
  · rw [if_neg hi, if_neg hi, String.toList_append, Nat.toList_repr]
    rfl

theorem toString_injective {i j : Int} (h : toString i = toString j) : i = j := by
  have hchars := congrArg String.toList h
  rw [toList_toString, toList_toString] at hchars
  by_cases hi : 0 ≤ i <;> by_cases hj : 0 ≤ j
  · rw [if_pos hi, if_pos hj] at hchars
    have hnat := toDigits_injective hchars
    omega
  · rw [if_pos hi, if_neg hj] at hchars
    exact absurd (hchars ▸ List.mem_cons_self) (not_mem_toDigits rfl _)
  · rw [if_neg hi, if_pos hj] at hchars
    exact absurd (hchars ▸ List.mem_cons_self) (not_mem_toDigits rfl _)
  · rw [if_neg hi, if_neg hj] at hchars
    have hnat := toDigits_injective (List.cons_inj_right _ |>.mp hchars)
    omega

/-! ## The shortest decimal -/

theorem scaled_pos {n base : Nat} {e : Int} (hn : 0 < n) (hb : 0 < base) : 0 < scaled n base e :=
  Nat.mul_pos hn (Nat.pow_pos hb)

theorem normalize_digits_pos (d : Decimal) (h : 0 < d.digits) : 0 < d.normalize.digits := by
  induction d using normalize.induct with
  | case1 d hd ih =>
    rw [normalize, dif_pos hd]
    exact ih (Nat.div_pos (by omega) (by decide))
  | case2 d hd =>
    rw [normalize, dif_neg hd]
    exact h

theorem readsBack_pos {x : Double} {d : Decimal} (hx : 0 < x.significand) (h : readsBack x d = true) :
    0 < d.digits := by
  apply Nat.pos_of_ne_zero
  intro h0
  have hnumber : scaled (scaled d.digits 10 d.exponent) 2 (2 - x.exponent) = 0 := by simp [scaled, h0]
  have hquarters {n : Nat} (hn : 0 < n) : 0 < scaled (scaled n 2 (x.exponent - 2)) 10 (-d.exponent) :=
    scaled_pos (scaled_pos hn (by decide)) (by decide)
  have hlow : 0 < 4 * x.significand - if x.narrowBelow = true then 1 else 2 := by split <;> omega
  have hl := hquarters hlow
  have hh := hquarters (n := 4 * x.significand + 2) (by omega)
  unfold readsBack at h
  rw [hnumber] at h
  simp only [Nat.not_lt_zero, decide_false, Bool.false_and, Bool.false_or, Bool.and_eq_true, Bool.or_eq_true,
    beq_iff_eq] at h
  omega

theorem onGrid?_pos {tie : Tie} {x : Double} {g : Int} {d : Decimal} (hx : 0 < x.significand)
    (h : onGrid? tie x g = some d) : 0 < d.digits :=
  readsBack_pos hx (List.find?_some h)

theorem shortest_digits_pos {tie : Tie} {x : Double} (hx : 0 < x.significand) : 0 < (shortest tie x).digits := by
  apply normalize_digits_pos
  cases hgrid : (List.range 17).findSome? fun (i : Nat) => onGrid? tie x (scale x - 1 - i) with
  | none => exact scaled_pos (scaled_pos hx (by decide)) (by decide)
  | some d =>
    obtain ⟨i, -, hi⟩ := List.exists_of_findSome?_eq_some hgrid
    exact onGrid?_pos hx hi

end ClaimRelay.Decimal
