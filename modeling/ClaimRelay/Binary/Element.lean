import ClaimRelay.Binary.Contents
import ClaimRelay.Binary.Tag

/-!
# Elements

An element is a tag byte, the length of its body and the body. A length below 128 is one byte; any other is
a byte that counts its bytes, with the top bit set, and these bytes, the big end first. The shortest form is
written; longer ones are read too.
-/

namespace ClaimRelay.Binary

def lengthBytes (n : Nat) : List UInt8 :=
  if n < 0x80 then [UInt8.ofNat n]
  else
    let bytes := stripZeros (bigEndian 8 n)
    UInt8.ofNat (0x80 + bytes.length) :: bytes

/-- What stands in front of a body of `n` bytes. -/
def header (tag : Tag) (n : Nat) : List UInt8 := tag.byte :: lengthBytes n

def element (tag : Tag) (body : List UInt8) : List UInt8 := header tag body.length ++ body

def takeBytes (n : Nat) (bytes : List UInt8) : Except Refusal (List UInt8 × List UInt8) :=
  if n ≤ bytes.length then pure (bytes.take n, bytes.drop n) else throw .cutShort

def splitLength : List UInt8 → Except Refusal (Nat × List UInt8)
  | [] => throw .incomplete
  | first :: bytes =>
    if first < 0x80 then pure (first.toNat, bytes)
    else
      let count := first.toNat - 0x80
      if count = 0 ∨ 8 < count then throw .lengthTooLarge
      else do
        let (digits, rest) ← takeBytes count bytes
        pure (ofBigEndian digits, rest)

structure Element where
  tag : UInt8
  body : List UInt8
  deriving DecidableEq

def splitElement : List UInt8 → Except Refusal (Element × List UInt8)
  | [] => throw .incomplete
  | tag :: bytes => do
    let (n, bytes) ← splitLength bytes
    let (body, rest) ← takeBytes n bytes
    pure (⟨tag, body⟩, rest)

theorem takeBytes_length {n : Nat} {bytes body rest : List UInt8}
    (h : takeBytes n bytes = .ok (body, rest)) : body.length + rest.length = bytes.length := by
  unfold takeBytes at h
  split at h <;> cases h
  simp; omega

theorem splitLength_length {n : Nat} {bytes rest : List UInt8} (h : splitLength bytes = .ok (n, rest)) :
    rest.length < bytes.length := by
  unfold splitLength at h
  split at h
  · cases h
  · rename_i first bytes
    split at h
    · cases h; simp
    · simp only at h
      split at h
      · cases h
      · cases ht : takeBytes (first.toNat - 0x80) bytes with
        | error e => simp [ht, bind, Except.bind] at h
        | ok p =>
          simp only [ht, bind, Except.bind, pure, Except.pure] at h
          cases h
          have := takeBytes_length ht
          simp; omega

theorem splitElement_length {x : Element} {bytes rest : List UInt8}
    (h : splitElement bytes = .ok (x, rest)) : x.body.length + rest.length + 1 < bytes.length := by
  unfold splitElement at h
  split at h
  · cases h
  · rename_i tag bytes
    cases hl : splitLength bytes with
    | error e => simp [hl, bind, Except.bind] at h
    | ok p =>
      obtain ⟨n, body⟩ := p
      cases ht : takeBytes n body with
      | error e => simp [hl, ht, bind, Except.bind] at h
      | ok q =>
        simp only [hl, ht, bind, Except.bind, pure, Except.pure] at h
        cases h
        have := takeBytes_length ht
        have := splitLength_length hl
        simp; omega

/-- The elements that bytes are made of, up to the first that is malformed, and why it is. -/
def splitAll (bytes : List UInt8) : List Element × Option Refusal :=
  if bytes.isEmpty then ([], none)
  else
    match h : splitElement bytes with
    | .error refusal => ([], some refusal)
    | .ok (x, rest) =>
      have := splitElement_length h
      let (more, refusal) := splitAll rest
      (x :: more, refusal)
termination_by bytes.length

end ClaimRelay.Binary
