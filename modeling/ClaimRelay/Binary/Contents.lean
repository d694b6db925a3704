import ClaimRelay.Binary.Refusal
import ClaimRelay.Text.Utf8

/-!
# Contents of numbers

Numbers are written with the big end first and in the fewest bytes: signed ones in two's complement, where a
leading byte that only repeats the sign is left out, unsigned ones without leading zero bytes. They are read
from one to eight bytes, whether these are the fewest or not.
-/

namespace ClaimRelay.Binary

/-- The last `count` bytes of `n`, the big end first. -/
def bigEndian : Nat → Nat → List UInt8
  | 0, _ => []
  | count + 1, n => bigEndian count (n / 256) ++ [UInt8.ofNat (n % 256)]

def ofBigEndian (bytes : List UInt8) : Nat := bytes.foldl (fun n b => n * 256 + b.toNat) 0

/-- Drops leading bytes that repeat the sign bit of the byte after them. -/
def stripSign : List UInt8 → List UInt8
  | a :: b :: rest =>
    if a = 0x00 ∧ b < 0x80 ∨ a = 0xff ∧ 0x80 ≤ b then stripSign (b :: rest) else a :: b :: rest
  | bytes => bytes

/-- Drops leading zero bytes, all but the last byte. -/
def stripZeros : List UInt8 → List UInt8
  | a :: b :: rest => if a = 0x00 then stripZeros (b :: rest) else a :: b :: rest
  | bytes => bytes

def encodeSigned (v : Int64) : List UInt8 := stripSign (bigEndian 8 v.toUInt64.toNat)

def encodeUnsigned (v : UInt64) : List UInt8 := stripZeros (bigEndian 8 v.toNat)

def decodeSigned (bytes : List UInt8) : Except Refusal Int64 :=
  if 1 ≤ bytes.length ∧ bytes.length ≤ 8 then
    let n := ofBigEndian bytes
    let span := Nat.pow 256 bytes.length
    pure (Int64.ofInt (if span ≤ 2 * n then n - span else n))
  else throw (.invalidValue .integer)

def decodeUnsigned (bytes : List UInt8) : Except Refusal UInt64 :=
  if 1 ≤ bytes.length ∧ bytes.length ≤ 8 then pure (UInt64.ofNat (ofBigEndian bytes))
  else throw (.invalidValue .unsigned)

def encodeDouble (x : Double) : List UInt8 := bigEndian 8 x.bits.toNat

def decodeDouble (bytes : List UInt8) : Except Refusal Double :=
  if bytes.length = 8 then pure ⟨UInt64.ofNat (ofBigEndian bytes)⟩ else throw (.invalidValue .double)

def decodeText (bytes : List UInt8) : Except Refusal String :=
  match Text.ofUtf8? bytes with
  | some s => pure s
  | none => throw (.invalidValue .utf8String)

end ClaimRelay.Binary
