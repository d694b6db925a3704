import ClaimRelay.Binary.Element
import ClaimRelay.Proofs.Binary.Contents

/-!
# Spellings of elements

A length has many spellings, for digits may be preceded by zeros. Reading takes all of them and nothing else, and
none begins another, so that bytes are split into elements in one way at most.
-/

namespace ClaimRelay.Binary

/-- A length: one byte below 128, or a byte that counts from one to eight bytes, and these. -/
inductive LengthOf : Nat → List UInt8 → Type
  | short {n : Nat} (h : n < 0x80) : LengthOf n [UInt8.ofNat n]
  | long (digits : List UInt8) (h : 1 ≤ digits.length ∧ digits.length ≤ 8) :
    LengthOf (ofBigEndian digits) (UInt8.ofNat (0x80 + digits.length) :: digits)

/-- An element: its tag, a length and just as many bytes. -/
structure ElementOf (tag : UInt8) (body bytes : List UInt8) where
  {length : List UInt8}
  exact : LengthOf body.length length
  spelled : bytes = tag :: (length ++ body)

/-! ## Splitting -/

theorem takeBytes_append (front rest : List UInt8) :
    takeBytes front.length (front ++ rest) = .ok (front, rest) := by
  unfold takeBytes
  rw [if_pos (by rw [List.length_append]; exact Nat.le_add_right ..), List.take_left, List.drop_left]
  rfl

theorem takeBytes_eq_ok {n : Nat} {bytes front rest : List UInt8} (h : takeBytes n bytes = .ok (front, rest)) :
    bytes = front ++ rest ∧ front.length = n := by
  unfold takeBytes at h
  split at h
  · cases h
    exact ⟨(List.take_append_drop ..).symm, List.length_take_of_le ‹_›⟩
  · cases h

theorem splitLength_long {count : Nat} (h : 1 ≤ count ∧ count ≤ 8) (bytes : List UInt8) :
    splitLength (UInt8.ofNat (0x80 + count) :: bytes) =
      takeBytes count bytes >>= fun p => .ok (ofBigEndian p.1, p.2) := by
  have hbyte : (UInt8.ofNat (0x80 + count)).toNat = 0x80 + count := by simp; omega
  have hge : ¬ UInt8.ofNat (0x80 + count) < 0x80 := by
    rw [UInt8.lt_iff_toNat_lt, hbyte]
    exact Nat.not_lt.mpr (Nat.le_add_right ..)
  have hcount : ¬ (count = 0 ∨ 8 < count) := by omega
  rw [splitLength, if_neg hge, hbyte, Nat.add_sub_cancel_left, if_neg hcount]
  rfl

theorem splitLength_of {n : Nat} {length : List UInt8} (d : LengthOf n length) (rest : List UInt8) :
    splitLength (length ++ rest) = .ok (n, rest) := by
  cases d with
  | short h =>
    have hbyte : (UInt8.ofNat n).toNat = n := by simp; omega
    have hlt : UInt8.ofNat n < 0x80 := UInt8.lt_iff_toNat_lt.mpr (by rw [hbyte]; exact h)
    rw [List.singleton_append, splitLength, if_pos hlt, hbyte]
    rfl
  | long digits h => rw [List.cons_append, splitLength_long h, takeBytes_append, ok_bind]

theorem splitLength_eq_ok {n : Nat} {bytes rest : List UInt8} (h : splitLength bytes = .ok (n, rest)) :
    ∃ length, bytes = length ++ rest ∧ Nonempty (LengthOf n length) := by
  cases bytes with
  | nil => cases h
  | cons first bytes =>
    rw [splitLength] at h
    by_cases hshort : first < 0x80
    · rw [if_pos hshort] at h
      cases h
      have d := LengthOf.short (UInt8.lt_iff_toNat_lt.mp hshort)
      rw [UInt8.ofNat_toNat] at d
      exact ⟨_, rfl, ⟨d⟩⟩
    · have hge : 0x80 ≤ first.toNat := Nat.not_lt.mp fun hlt => hshort (UInt8.lt_iff_toNat_lt.mpr hlt)
      obtain ⟨count, hcount⟩ := Nat.exists_eq_add_of_le hge
      have hfirst : first = UInt8.ofNat (0x80 + count) := by rw [← hcount, UInt8.ofNat_toNat]
      rw [if_neg hshort] at h
      simp only [hcount, Nat.add_sub_cancel_left] at h
      split at h
      · cases h
      · rename_i hfew
        obtain ⟨⟨digits, after⟩, htake, h⟩ := bind_eq_ok.mp h
        cases h
        obtain ⟨rfl, hlen⟩ := takeBytes_eq_ok htake
        have d := LengthOf.long digits (by omega)
        rw [hlen, ← hfirst] at d
        exact ⟨_, rfl, ⟨d⟩⟩

theorem splitElement_of {tag : UInt8} {body bytes : List UInt8} (d : ElementOf tag body bytes) (rest : List UInt8) :
    splitElement (bytes ++ rest) = .ok (⟨tag, body⟩, rest) := by
  obtain ⟨n, rfl⟩ := d
  rw [List.cons_append, List.append_assoc, splitElement, splitLength_of n, ok_bind]
  simp only [takeBytes_append, ok_bind]
  rfl

theorem splitElement_eq_ok {x : Element} {bytes rest : List UInt8} (h : splitElement bytes = .ok (x, rest)) :
    ∃ front, bytes = front ++ rest ∧ Nonempty (ElementOf x.tag x.body front) := by
  cases bytes with
  | nil => cases h
  | cons first bytes =>
    rw [splitElement] at h
    obtain ⟨⟨n, after⟩, hlength, h⟩ := bind_eq_ok.mp h
    obtain ⟨⟨body, rest'⟩, htake, h⟩ := bind_eq_ok.mp h
    cases h
    obtain ⟨length, rfl, ⟨d⟩⟩ := splitLength_eq_ok hlength
    obtain ⟨rfl, rfl⟩ := takeBytes_eq_ok htake
    refine ⟨first :: (length ++ body), ?_, ⟨d, rfl⟩⟩
    rw [List.cons_append, List.append_assoc]

theorem splitAll_cons {x : Element} {bytes : List UInt8} (d : ElementOf x.tag x.body bytes) (rest : List UInt8) :
    splitAll (bytes ++ rest) = (x :: (splitAll rest).1, (splitAll rest).2) := by
  have hsplit : splitElement (bytes ++ rest) = .ok (x, rest) := splitElement_of d rest
  have hsome : (bytes ++ rest).isEmpty = false := by
    obtain ⟨_, rfl⟩ := d
    rfl
  rw [splitAll, hsome]
  simp only [Bool.false_eq_true, ite_false]
  split
  · rename_i he
    rw [hsplit] at he
    cases he
  · rename_i hok
    rw [hsplit] at hok
    cases hok
    rfl

/-! ## One spelling in the bytes -/

theorem lengthOf_heq {n n' : Nat} {length length' : List UInt8} (d : LengthOf n length) (d' : LengthOf n' length')
    (hn : n = n') (h : length = length') : HEq d d' := by
  cases d with
  | short hlt =>
    cases d' with
    | short hlt' =>
      subst hn
      rfl
    | long digits' hlen' =>
      obtain ⟨-, rfl⟩ := List.cons.inj h
      exact absurd hlen'.1 (by decide)
  | long digits hlen =>
    cases d' with
    | short hlt' =>
      obtain ⟨-, rfl⟩ := List.cons.inj h
      exact absurd hlen.1 (by decide)
    | long digits' hlen' =>
      obtain ⟨-, rfl⟩ := List.cons.inj h
      rfl

instance {n : Nat} {length : List UInt8} : Subsingleton (LengthOf n length) :=
  ⟨fun d d' => eq_of_heq (lengthOf_heq d d' rfl rfl)⟩

instance {tag : UInt8} {body bytes : List UInt8} : Subsingleton (ElementOf tag body bytes) where
  allEq d d' := by
    obtain ⟨n, h⟩ := d
    obtain ⟨n', h'⟩ := d'
    obtain rfl := List.append_cancel_right (List.cons.inj (h.symm.trans h')).2
    obtain rfl := Subsingleton.elim n n'
    rfl

/-- An element ends where its length says, whatever follows. -/
theorem ElementOf.front {tag tag' : UInt8} {body body' bytes bytes' rest rest' : List UInt8}
    (d : ElementOf tag body bytes) (d' : ElementOf tag' body' bytes') (h : bytes ++ rest = bytes' ++ rest') :
    tag = tag' ∧ body = body' ∧ bytes = bytes' ∧ rest = rest' := by
  have hsplit := splitElement_of d rest
  rw [h, splitElement_of d'] at hsplit
  cases hsplit
  exact ⟨rfl, rfl, List.append_cancel_right h, rfl⟩

end ClaimRelay.Binary
