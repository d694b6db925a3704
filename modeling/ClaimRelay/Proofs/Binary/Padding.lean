import ClaimRelay.Proofs.Binary.AcceptedTrees
import ClaimRelay.Proofs.Binary.Shortest

/-!
# Padding

A number is written in the fewest bytes. What else is read as the same number is these bytes behind others that add
nothing, which are zeros, or repeat the sign of a negative number. So the written bytes end all the others, and none
of these is as short. The digits of a length are padded in the same way, and of all headers that are read as one
length the shortest is written.
-/

namespace ClaimRelay.Binary

/-- How numbers are written and read: in the fewest bytes, and from these behind any that add nothing. -/
structure FewestBytes {α : Type} (encode : α → List UInt8) (decode : List UInt8 → Except Refusal α)
    (fill : α → UInt8) : Prop where
  inverts (v : α) : decode (encode v) = .ok v
  accepts (bytes : List UInt8) : (∃ v, decode bytes = .ok v) ↔ 1 ≤ bytes.length ∧ bytes.length ≤ 8
  ends {bytes : List UInt8} {v : α} (h : decode bytes = .ok v) : encode v <:+ bytes
  fewest {bytes : List UInt8} {v : α} (h : decode bytes = .ok v) :
    bytes = encode v ∨ (encode v).length < bytes.length
  spelled (bytes : List UInt8) (v : α) :
    decode bytes = .ok v ↔ bytes.length ≤ 8 ∧ ∃ n, bytes = List.replicate n (fill v) ++ encode v

section
variable {α β : Type} {strip : List UInt8 → List UInt8} {value : List UInt8 → β} {fill : β → UInt8}
  {encode : α → List UInt8} {decode : List UInt8 → Except Refusal α} {number : α → β}
  (hs : Strips strip value fill) (hround : ∀ v, decode (encode v) = .ok v)
  (hread : ∀ {bytes v}, decode bytes = .ok v ↔ (1 ≤ bytes.length ∧ bytes.length ≤ 8) ∧ number v = value bytes)
  (hwritten : ∀ {v bytes}, 1 ≤ bytes.length ∧ bytes.length ≤ 8 → number v = value bytes → encode v = strip bytes)
include hs hround hread hwritten

theorem Strips.spelled_iff (bytes : List UInt8) (v : α) :
    decode bytes = .ok v ↔ bytes.length ≤ 8 ∧ ∃ n, bytes = List.replicate n (fill (number v)) ++ encode v := by
  constructor
  · intro h
    obtain ⟨hlen, hv⟩ := hread.mp h
    obtain ⟨-, -, n, hn⟩ := hs.stripped (List.ne_nil_of_length_pos hlen.1)
    refine ⟨hlen.2, n, ?_⟩
    rw [hwritten hlen hv, hv]
    exact hn
  · -- what is read from the written bytes is their value, which padding keeps
    rintro ⟨hlen, n, rfl⟩
    obtain ⟨hfewest, hv⟩ := hread.mp (hround v)
    refine hread.mpr ⟨⟨?_, hlen⟩, ?_⟩
    · rw [List.length_append]
      exact Nat.le_trans hfewest.1 (Nat.le_add_left ..)
    · rw [hv, (hs.padded (List.ne_nil_of_length_pos hfewest.1) n).2]

/-- What is read in one to eight bytes by their value, and written as what stripping leaves of them, is written in
the fewest. -/
theorem Strips.fewestBytes
    (htotal : ∀ {bytes}, 1 ≤ bytes.length ∧ bytes.length ≤ 8 → ∃ v, decode bytes = .ok v) :
    FewestBytes encode decode fun v => fill (number v) := by
  have hspelled := hs.spelled_iff hround hread hwritten
  have hends {bytes : List UInt8} {v : α} (h : decode bytes = .ok v) : encode v <:+ bytes := by
    obtain ⟨-, n, rfl⟩ := (hspelled bytes v).mp h
    exact List.suffix_append ..
  exact ⟨hround, fun bytes => ⟨fun ⟨v, h⟩ => (hread.mp h).1, htotal⟩, hends,
    fun h => eq_or_shorter_of_suffix (hends h), hspelled⟩

end

/-- **Contents of numbers.** Of the one to eight bytes that are read as a number those that are written are the one
shortest spelling and the end of every other. -/
theorem numbers_minimal :
    FewestBytes encodeSigned decodeSigned (fun v => signFill v.toInt) ∧
      FewestBytes encodeUnsigned decodeUnsigned (fun _ => 0x00) := by
  constructor
  · exact strips_sign.fewestBytes decodeSigned_encodeSigned decodeSigned_eq_ok encodeSigned_eq
      fun h => ⟨_, if_pos h⟩
  · exact strips_zeros.fewestBytes decodeUnsigned_encodeUnsigned decodeUnsigned_eq_ok encodeUnsigned_eq
      fun h => ⟨_, if_pos h⟩

theorem numbers_minimal_padded :
    decodeSigned [0xff, 0xff, 0x7f] = .ok (-129) ∧ encodeSigned (-129) <:+ [0xff, 0xff, 0x7f] ∧
      (encodeSigned (-129)).length < 3 ∧ decodeUnsigned [0x00, 0x80] = .ok 128 ∧ encodeUnsigned 128 <:+ [0x00, 0x80] ∧
      (encodeUnsigned 128).length < 2 := by
  have hsigned : decodeSigned [0xff, 0xff, 0x7f] = .ok (-129) := decodeSigned_eq_ok.mpr ⟨by decide, by decide⟩
  have hunsigned : decodeUnsigned [0x00, 0x80] = .ok 128 := decodeUnsigned_eq_ok.mpr ⟨by decide, by decide⟩
  obtain ⟨signed, unsigned⟩ := numbers_minimal
  refine ⟨hsigned, signed.ends hsigned, ?_, hunsigned, unsigned.ends hunsigned, ?_⟩
  · exact (signed.fewest hsigned).resolve_left (by decide)
  · exact (unsigned.fewest hunsigned).resolve_left (by decide)

example : [127, 128, -128, -129].map encodeSigned = [[0x7f], [0x00, 0x80], [0x80], [0xff, 0x7f]] := by decide

/-! ## Headers -/

/-- Whether bytes are read as the header of a body of `n` bytes when `rest` follows them. -/
def HeaderOf (tag : Tag) (n : Nat) (bytes rest : List UInt8) : Prop :=
  ∃ length, bytes = tag.byte :: length ∧ splitLength (length ++ rest) = .ok (n, rest)

section
variable {n : Nat} {length bytes rest : List UInt8} {tag : Tag}

theorem splitLength_iff : splitLength (length ++ rest) = .ok (n, rest) ↔ Nonempty (LengthOf n length) := by
  constructor
  · intro h
    obtain ⟨length', heq, d⟩ := splitLength_eq_ok h
    rwa [List.append_cancel_right heq]
  · rintro ⟨d⟩
    exact splitLength_of d rest

theorem headerOf_iff : HeaderOf tag n bytes rest ↔ n < 0x80 ∧ bytes = [tag.byte, UInt8.ofNat n] ∨
    ∃ digits, (1 ≤ digits.length ∧ digits.length ≤ 8) ∧ ofBigEndian digits = n ∧
      bytes = tag.byte :: UInt8.ofNat (0x80 + digits.length) :: digits := by
  unfold HeaderOf
  constructor
  · rintro ⟨length, rfl, h⟩
    obtain ⟨d⟩ := splitLength_iff.mp h
    cases d with
    | short hn => exact .inl ⟨hn, rfl⟩
    | long digits hlen => exact .inr ⟨digits, hlen, rfl, rfl⟩
  · rintro (⟨hn, rfl⟩ | ⟨digits, hlen, rfl, rfl⟩)
    · exact ⟨_, rfl, splitLength_of (.short hn) rest⟩
    · exact ⟨_, rfl, splitLength_of (.long digits hlen) rest⟩

theorem HeaderOf.fewest (h : HeaderOf tag n bytes rest) :
    bytes = header tag n ∨ (header tag n).length < bytes.length := by
  obtain ⟨length, rfl, hread⟩ := h
  obtain ⟨d⟩ := splitLength_iff.mp hread
  rcases d.fewest with heq | hlt
  · exact .inl (congrArg (tag.byte :: ·) heq)
  · exact .inr (Nat.succ_lt_succ hlt)

end

/-- **Framing.** Elements of every first byte are read back in front of whatever follows. Of all the headers that are
read as one length, those with more digits than they need among them, the one that is written is shorter than any
other, and a longer body has no shorter one. -/
theorem element_framed : (∀ b : UInt8, (Tag.ofByte b).byte = b) ∧ ∀ tag : Tag,
    (∀ body rest : List UInt8, body.length < UInt64.size →
      splitElement (element tag body ++ rest) = .ok (⟨tag.byte, body⟩, rest)) ∧
    (∀ (n : Nat) (rest : List UInt8), n < UInt64.size → HeaderOf tag n (header tag n) rest) ∧
    (∀ (n : Nat) (bytes rest : List UInt8), HeaderOf tag n bytes rest ↔
      n < 0x80 ∧ bytes = [tag.byte, UInt8.ofNat n] ∨
        ∃ digits, (1 ≤ digits.length ∧ digits.length ≤ 8) ∧ ofBigEndian digits = n ∧
          bytes = tag.byte :: UInt8.ofNat (0x80 + digits.length) :: digits) ∧
    (∀ (n : Nat) (bytes rest : List UInt8), HeaderOf tag n bytes rest →
      bytes = header tag n ∨ (header tag n).length < bytes.length) ∧
    ∀ n m : Nat, n ≤ m → m < UInt64.size → (header tag n).length ≤ (header tag m).length := by
  refine ⟨Tag.byte_ofByte, fun tag => ⟨fun body rest h => splitElement_element tag h rest, fun n rest h => ?_,
    fun n bytes rest => headerOf_iff, fun n bytes rest h => h.fewest, fun n m h hm => ?_⟩⟩
  · exact ⟨_, rfl, splitLength_iff.mpr (lengthOf_lengthBytes h)⟩
  · exact Nat.succ_le_succ (lengthBytes_mono h hm)

/-- A body of 200 bytes, whose length has one digit and is read from two as well. -/
theorem element_framed_padded :
    let body : List UInt8 := List.replicate 200 0x07
    splitElement (element .octetString body ++ [0x30]) = .ok (⟨0x04, body⟩, [0x30]) ∧
      HeaderOf .octetString 200 (header .octetString 200) [] ∧
      HeaderOf .octetString 200 [0x04, 0x82, 0x00, 0xc8] [] ∧ (header .octetString 200).length < 4 ∧
      (header .octetString 127).length ≤ (header .octetString 200).length := by
  intro body
  obtain ⟨-, framed⟩ := element_framed
  obtain ⟨hsplit, hwritten, hspelled, hfewest, hmono⟩ := framed .octetString
  have hlength : body.length < UInt64.size := by
    rw [List.length_replicate]
    decide
  have hpadded : HeaderOf .octetString 200 [0x04, 0x82, 0x00, 0xc8] [] :=
    (hspelled 200 _ []).mpr (.inr ⟨[0x00, 0xc8], by decide, rfl, rfl⟩)
  exact ⟨hsplit body [0x30] hlength, hwritten 200 [] (by decide), hpadded,
    (hfewest 200 _ [] hpadded).resolve_left (by decide), hmono 127 200 (by decide) (by decide)⟩

end ClaimRelay.Binary
