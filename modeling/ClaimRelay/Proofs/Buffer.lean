import ClaimRelay.Buffer

/-!
# Room in buffers

Writing into a buffer either puts the bytes where they belong or overflows, whatever the kind of buffer is. So
what the calls do can be said of the content alone, and of whether it fits.
-/

namespace ClaimRelay.Buffer

/-- With bytes at the end, be there room for them or not. -/
def plus (bytes : List UInt8) : Buffer → Buffer
  | measuring count => measuring (count + bytes.length)
  | fixed capacity content => fixed capacity (content ++ bytes)
  | growable content => growable (content ++ bytes)

def Fits (b : Buffer) : Prop := ∀ capacity, b.capacity? = some capacity → b.size ≤ capacity

/-- The refusal of a call that needs more than there is room for. -/
def Overflows (b : Buffer) (e : Error) : Prop :=
  ∃ needed capacity, e = .overflow needed capacity ∧ b.capacity? = some capacity ∧ capacity < needed

theorem plus_nil (b : Buffer) : b.plus [] = b := by
  cases b <;> simp [plus]

theorem plus_plus (b : Buffer) (xs ys : List UInt8) : (b.plus xs).plus ys = b.plus (xs ++ ys) := by
  cases b <;> simp [plus, Nat.add_assoc]

theorem size_plus (b : Buffer) (bytes : List UInt8) : (b.plus bytes).size = b.size + bytes.length := by
  cases b <;> simp [plus, size]

theorem size_plus_of_empty {b : Buffer} (h : b.size = 0) (bytes : List UInt8) :
    (b.plus bytes).size = bytes.length := by
  rw [size_plus, h, Nat.zero_add]

theorem capacity_plus (b : Buffer) (bytes : List UInt8) : (b.plus bytes).capacity? = b.capacity? := by
  cases b <;> rfl

theorem Fits.mono {b c : Buffer} (h : c.Fits) (hc : c.capacity? = b.capacity?) (hs : b.size ≤ c.size) :
    b.Fits := by
  intro capacity hb
  have hfit : c.size ≤ capacity := h capacity (hc.trans hb)
  omega

theorem fits_of_unbounded {b : Buffer} (h : b.capacity? = none) : b.Fits := by
  intro capacity hb
  rw [h] at hb
  cases hb

theorem Overflows.congr {b c : Buffer} {e : Error} (h : c.Overflows e) (hc : c.capacity? = b.capacity?) :
    b.Overflows e := by
  obtain ⟨needed, capacity, he, hcap, hlt⟩ := h
  exact ⟨needed, capacity, he, hc.symm.trans hcap, hlt⟩

/-- Bytes go in front of those that were written last. -/
theorem insert_of_fits {b : Buffer} {front back : List UInt8} (h : (b.plus (front ++ back)).Fits) :
    (b.plus back).insert b.size front = .ok (b.plus (front ++ back)) := by
  have hsize : ¬ (b.plus back).size < b.size := by
    rw [size_plus]
    omega
  unfold insert
  rw [if_neg hsize]
  cases b with
  | measuring count => simp [plus, grow, pure, Except.pure]; omega
  | growable content => simp [plus, grow, size, pure, Except.pure]
  | fixed capacity content =>
    have hfit := h capacity rfl
    rw [size_plus] at hfit
    have hroom : ¬ capacity < (content ++ back).length + front.length := by
      simp only [size, List.length_append] at hfit ⊢
      omega
    simp only [plus, grow, hroom, ite_false]
    simp [size, pure, Except.pure]

theorem insert_of_not_fits {b : Buffer} {front back : List UInt8} (h : ¬ (b.plus (front ++ back)).Fits) :
    ∃ e, (b.plus back).insert b.size front = .error e ∧ b.Overflows e := by
  have hsize : ¬ (b.plus back).size < b.size := by
    rw [size_plus]
    omega
  unfold insert
  rw [if_neg hsize]
  cases b with
  | measuring count => exact absurd (fits_of_unbounded rfl) h
  | growable content => exact absurd (fits_of_unbounded rfl) h
  | fixed capacity content =>
    have hroom : capacity < (content ++ back).length + front.length := by
      apply Nat.lt_of_not_le
      intro hle
      apply h
      intro c hc
      cases hc
      rw [size_plus]
      simp only [size, List.length_append] at hle ⊢
      omega
    refine ⟨.overflow ((content ++ back).length + front.length) capacity, ?_, _, capacity, rfl, rfl, hroom⟩
    simp only [plus, grow, hroom, ite_true]
    rfl

theorem append_of_fits {b : Buffer} {bytes : List UInt8} (h : (b.plus bytes).Fits) :
    b.append bytes = .ok (b.plus bytes) := by
  have : (b.plus []).insert b.size bytes = .ok (b.plus (bytes ++ [])) := insert_of_fits (by rwa [List.append_nil])
  rwa [plus_nil, List.append_nil, ← append_eq_insert] at this

theorem append_of_not_fits {b : Buffer} {bytes : List UInt8} (h : ¬ (b.plus bytes).Fits) :
    ∃ e, b.append bytes = .error e ∧ b.Overflows e := by
  have : ∃ e, (b.plus []).insert b.size bytes = .error e ∧ b.Overflows e :=
    insert_of_not_fits (by rwa [List.append_nil])
  rwa [plus_nil, ← append_eq_insert] at this

end ClaimRelay.Buffer
