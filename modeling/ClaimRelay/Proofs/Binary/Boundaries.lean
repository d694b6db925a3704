import ClaimRelay.Proofs.Binary.Acceptance

/-!
# Where a token ends

How long a token is stands at its front and is looked at before anything inside. So a token that is cut short, or
that goes on, is refused for its length and never for what is in it, and no token begins another.
-/

namespace ClaimRelay.Binary

/-- Why the first `n` bytes of a token are refused when there are more. -/
def cutRefusal : Nat → Refusal
  | 0 => .empty
  | 1 => .incomplete
  | _ + 2 => .cutShort

section
variable {front rest : List UInt8}

/-! ## Elements cut short -/

theorem takeBytes_cut (h : rest ≠ []) : takeBytes (front ++ rest).length front = .error .cutShort := by
  have hshort : front.length < (front ++ rest).length := by
    have := List.length_pos_iff.mpr h
    rw [List.length_append]
    omega
  exact if_neg (Nat.not_le.mpr hshort)

/-- Once the first byte of a length is there, the bytes that it counts are missed. -/
theorem splitLength_cut {n : Nat} {first : UInt8} {length : List UInt8} (d : LengthOf n length)
    (h : length = first :: (front ++ rest)) (hrest : rest ≠ []) : splitLength (first :: front) = .error .cutShort := by
  cases d with
  | short hn =>
    obtain ⟨-, hnil⟩ := List.cons.inj h
    exact absurd (List.append_eq_nil_iff.mp hnil.symm).2 hrest
  | long digits hcount =>
    obtain ⟨rfl, rfl⟩ := List.cons.inj h
    rw [splitLength_long hcount, takeBytes_cut hrest, error_bind]

theorem splitElement_cut_length {n : Nat} {tag : UInt8} {length : List UInt8} (d : LengthOf n length)
    (h : length = front ++ rest) (hrest : rest ≠ []) :
    splitElement (tag :: front) = .error (cutRefusal (tag :: front).length) := by
  cases front with
  | nil => rfl
  | cons first front =>
    rw [splitElement, splitLength_cut d h hrest]
    rfl

theorem LengthOf.ne_nil {n : Nat} {length : List UInt8} (d : LengthOf n length) : length ≠ [] := by
  cases d <;> exact List.cons_ne_nil _ _

theorem splitElement_cut_body {tag : UInt8} {length : List UInt8} (d : LengthOf (front ++ rest).length length)
    (hrest : rest ≠ []) :
    splitElement (tag :: (length ++ front)) = .error (cutRefusal (tag :: (length ++ front)).length) := by
  have hlength : splitLength (length ++ front) = .ok ((front ++ rest).length, front) := splitLength_of d front
  have hcut : cutRefusal (tag :: (length ++ front)).length = .cutShort := by
    obtain ⟨first, digits, rfl⟩ := List.exists_cons_of_ne_nil d.ne_nil
    rfl
  rw [splitElement, hlength, ok_bind, hcut]
  simp only [takeBytes_cut hrest]
  rfl

theorem splitElement_cut {tag : UInt8} {body bytes : List UInt8} (d : ElementOf tag body bytes)
    (h : bytes = front ++ rest) (hfront : front ≠ []) (hrest : rest ≠ []) :
    splitElement front = .error (cutRefusal front.length) := by
  obtain ⟨d, rfl⟩ := d
  cases front with
  | nil => exact absurd rfl hfront
  | cons first front =>
    obtain ⟨rfl, hsplit⟩ := List.cons.inj h
    -- where the cut is: in the length, between length and body, or in the body
    rcases List.append_eq_append_iff.mp hsplit with ⟨part, rfl, rfl⟩ | ⟨missing, hlength, hbody⟩
    · exact splitElement_cut_body d hrest
    · by_cases hmissing : missing = []
      · subst hmissing
        rw [List.append_nil] at hlength
        rw [List.nil_append] at hbody
        obtain rfl := hlength.symm
        subst hbody
        have hcut : splitElement (tag :: (front ++ [])) = .error (cutRefusal (tag :: (front ++ [])).length) :=
          splitElement_cut_body d hrest
        rwa [List.append_nil] at hcut
      · exact splitElement_cut_length d hlength hmissing

/-! ## Tokens -/

theorem TokenOf.outermost {n : Nat} {cs : List Claim} {es : List Entry} {bytes : List UInt8} :
    TokenOf n cs es bytes → ∃ body, Nonempty (ElementOf Tag.token.byte body bytes)
  | .token _ _ e => ⟨_, ⟨e⟩⟩

variable {m : ClaimSet} {bytes : List UInt8}

theorem decode_cut (h : decode (front ++ rest) = .ok m) (hrest : rest ≠ []) :
    decode front = .error (cutRefusal front.length) := by
  obtain ⟨d⟩ := decode_eq_ok.mp h
  obtain ⟨body, ⟨e⟩⟩ := d.outermost
  cases front with
  | nil => rfl
  | cons first front =>
    have hsplit := splitElement_cut e rfl (List.cons_ne_nil first front) hrest
    unfold decode Node.parse
    rw [hsplit]
    rfl

theorem decode_append (h : decode bytes = .ok m) (hrest : rest ≠ []) :
    decode (bytes ++ rest) = .error (.trailingBytes rest.length) := by
  obtain ⟨d⟩ := decode_eq_ok.mp h
  obtain ⟨node, hreads, -⟩ := Node.accepted_token d
  have hparse : Node.parse (bytes ++ rest) = .ok (node, rest) := parse_eq_ok.mpr ⟨bytes, rfl, hreads⟩
  have hsome : (bytes ++ rest).isEmpty = false := by simp [hrest]
  unfold decode
  simp only [hsome, hparse, ok_bind, if_pos hrest]
  rfl

theorem open?_error {e : Refusal} (h : decode bytes = .error e) : open? bytes = .error e := by
  unfold open?
  rw [h]
  rfl

/-- **Prefixes.** No token can be cut short, or go on, and be a token. -/
theorem open_prefixFree {s : Cursor} (h : open? bytes = .ok s) :
    (∀ front rest, bytes = front ++ rest → rest ≠ [] → open? front = .error (cutRefusal front.length)) ∧
    (∀ rest, rest ≠ [] → open? (bytes ++ rest) = .error (.trailingBytes rest.length)) ∧
    ∀ other t, open? other = .ok t → bytes <+: other ∨ other <+: bytes → other = bytes := by
  obtain ⟨m, hm, -⟩ := bind_eq_ok.mp h
  have hlonger : ∀ rest, rest ≠ [] → open? (bytes ++ rest) = .error (.trailingBytes rest.length) :=
    fun rest hrest => open?_error (decode_append hm hrest)
  have hshorter : ∀ front rest, bytes = front ++ rest → rest ≠ [] →
      open? front = .error (cutRefusal front.length) := by
    rintro front rest rfl hrest
    exact open?_error (decode_cut hm hrest)
  refine ⟨hshorter, hlonger, fun other t ht hprefix => ?_⟩
  rcases hprefix with ⟨rest, rfl⟩ | ⟨rest, hbytes⟩
  · by_cases hrest : rest = []
    · rw [hrest, List.append_nil]
    · rw [hlonger rest hrest] at ht
      cases ht
  · by_cases hrest : rest = []
    · rw [← hbytes, hrest, List.append_nil]
    · rw [hshorter other rest hbytes.symm hrest] at ht
      cases ht

/-- One claim, under a length that is spelled with two bytes more than it needs. -/
def spelledLong : List UInt8 := [0x30, 0x82, 0x00, 0x07, 0xa0, 0x05, 0x02, 0x01, 0x01, 0x05, 0x00]

theorem open_prefixFree_spelledLong :
    open? spelledLong = .ok { root := ⟨[⟨1, .null⟩], []⟩ } ∧ open? [0x30] = .error .incomplete ∧
      open? [0x30, 0x82, 0x00] = .error .cutShort ∧ open? (spelledLong ++ [0x30, 0x00]) = .error (.trailingBytes 2) := by
  have hopen : open? spelledLong = .ok { root := ⟨[⟨1, .null⟩], []⟩ } := by with_unfolding_all rfl
  obtain ⟨hshorter, hlonger, -⟩ := open_prefixFree hopen
  exact ⟨hopen, hshorter [0x30] _ rfl (List.cons_ne_nil _ _), hshorter [0x30, 0x82, 0x00] _ rfl (List.cons_ne_nil _ _),
    hlonger [0x30, 0x00] (List.cons_ne_nil _ _)⟩

end

end ClaimRelay.Binary
