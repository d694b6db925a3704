import ClaimRelay.Text.Base64

/-!
# Base64 text by its bits

The bits of bytes, cut into sixes, are the numbers of digits in an alphabet; zeros fill up the last six. Of the texts
of digits just one stands for given bytes in this way, and it is the one that is written.
-/

namespace ClaimRelay.Text

def base64Alphabet : List Char := "ABCDEFGHIJKLMNOPQRSTUVWXYZabcdefghijklmnopqrstuvwxyz0123456789-_".toList

theorem length_base64Alphabet : base64Alphabet.length = 64 := by decide

def base64Digit (n : Fin 64) : Char := base64Alphabet.get (n.cast length_base64Alphabet.symm)

/-- The lowest `width` bits of a number, from high to low. -/
def bits : Nat → Nat → List Bool
  | 0, _ => []
  | width + 1, n => n.testBit width :: bits width n

def byteBits (bytes : List UInt8) : List Bool := bytes.flatMap fun b => bits 8 b.toNat

def digitBits (digits : List (Fin 64)) : List Bool := digits.flatMap fun n => bits 6 n.val

/-- Whether the text is that of the bytes, without padding. -/
def Base64Url (bytes : List UInt8) (text : List Char) : Prop :=
  ∃ digits fill, text = digits.map base64Digit ∧
    digitBits digits = byteBits bytes ++ List.replicate fill false ∧ fill < 6

/-! ## Bits -/

theorem byteBits_nil : byteBits [] = [] := rfl

theorem byteBits_cons (b : UInt8) (rest : List UInt8) : byteBits (b :: rest) = bits 8 b.toNat ++ byteBits rest := rfl

theorem length_bits (width n : Nat) : (bits width n).length = width := by
  induction width with
  | zero => rfl
  | succ width ih => rw [bits, List.length_cons, ih]

theorem bits_mod (width n : Nat) : bits width (n % 1 <<< width) = bits width n := by
  have hlow : ∀ i ≤ width, bits i (n % 1 <<< width) = bits i n := by
    intro i hi
    induction i with
    | zero => rfl
    | succ i ih =>
      have hbit : (n % 1 <<< width).testBit i = n.testBit i := by
        rw [Nat.one_shiftLeft, Nat.testBit_mod_two_pow, decide_eq_true (Nat.lt_of_succ_le hi), Bool.true_and]
      rw [bits, bits, ih (Nat.le_of_lt hi), hbit]
  exact hlow width (Nat.le_refl width)

theorem bits_add (high low n : Nat) : bits (high + low) n = bits high (n >>> low) ++ bits low n := by
  induction high with
  | zero => rw [Nat.zero_add, bits, List.nil_append]
  | succ high ih =>
    rw [Nat.succ_add, bits, bits, ih, Nat.testBit_shiftRight, Nat.add_comm low, List.cons_append]

theorem bits_zeros (width : Nat) : bits width 0 = List.replicate width false := by
  induction width with
  | zero => rfl
  | succ width ih => rw [bits, ih, Nat.zero_testBit, List.replicate_succ]

theorem bits_pack {high low a b : Nat} (hb : b < 1 <<< low) :
    bits (high + low) (a <<< low + b) = bits high a ++ bits low b := by
  have hpos : 0 < 1 <<< low := Nat.zero_lt_of_lt hb
  have hsum : a <<< low + b = 1 <<< low * a + b := by
    rw [Nat.shiftLeft_eq, Nat.one_shiftLeft, Nat.mul_comm]
  have hhigh : (a <<< low + b) >>> low = a := by
    rw [hsum, Nat.shiftRight_eq_div_pow, ← Nat.one_shiftLeft, Nat.mul_add_div hpos, Nat.div_eq_of_lt hb, Nat.add_zero]
  have hlow : (a <<< low + b) % 1 <<< low = b := by
    rw [hsum, Nat.mul_add_mod, Nat.mod_eq_of_lt hb]
  rw [bits_add, hhigh, ← bits_mod low, hlow]

theorem bits_two_bytes (a b : UInt8) : bits 16 (a.toNat <<< 8 + b.toNat) = bits 8 a.toNat ++ bits 8 b.toNat := by
  have hpack : bits (8 + 8) (a.toNat <<< 8 + b.toNat) = bits 8 a.toNat ++ bits 8 b.toNat := bits_pack b.toNat_lt
  exact hpack

/-! ## The text that is written -/

/-- A number in so many digits. -/
def digitsOf : Nat → Nat → List (Fin 64)
  | 0, _ => []
  | count + 1, n => Fin.ofNat 64 (n >>> (6 * count)) :: digitsOf count n

theorem digitBits_digitsOf (count n : Nat) : digitBits (digitsOf count n) = bits (6 * count) n := by
  induction count with
  | zero => rfl
  | succ count ih =>
    have hfirst : bits 6 (Fin.ofNat 64 (n >>> (6 * count))).val = bits 6 (n >>> (6 * count)) := bits_mod 6 _
    have hwidth : 6 * (count + 1) = 6 + 6 * count := by omega
    rw [hwidth, bits_add, ← hfirst, ← ih]
    rfl

theorem digitBits_append (xs ys : List (Fin 64)) : digitBits (xs ++ ys) = digitBits xs ++ digitBits ys :=
  List.flatMap_append

theorem base64Char_mod (n : Nat) : base64Char (n % 64) = base64Digit (Fin.ofNat 64 n) := by
  have hall : ∀ n : Fin 64, base64Char n = base64Digit n := by decide +kernel
  exact hall (Fin.ofNat 64 n)

theorem base64Char_of_lt {n : Nat} (h : n < 64) : base64Char n = base64Digit (Fin.ofNat 64 n) := by
  rw [← base64Char_mod, Nat.mod_eq_of_lt h]

theorem digitsOf_two (n : Nat) : digitsOf 2 n = [Fin.ofNat 64 (n / 64), Fin.ofNat 64 n] := by
  rw [digitsOf, digitsOf, digitsOf, Nat.shiftRight_eq_div_pow]
  rfl

theorem digitsOf_three (n : Nat) : digitsOf 3 n = Fin.ofNat 64 (n / 4096) :: digitsOf 2 n := by
  rw [digitsOf, Nat.shiftRight_eq_div_pow]

theorem digitsOf_four (n : Nat) : digitsOf 4 n = Fin.ofNat 64 (n / 262144) :: digitsOf 3 n := by
  rw [digitsOf, Nat.shiftRight_eq_div_pow]

theorem base64_one (a : UInt8) : base64 [a] = (digitsOf 2 (a.toNat <<< 4)).map base64Digit := by
  have ha := a.toNat_lt
  have hfirst : a.toNat * 16 / 64 < 64 := by omega
  rw [base64, base64Char_of_lt hfirst, base64Char_mod, Nat.shiftLeft_eq, digitsOf_two]
  rfl

theorem base64_two (a b : UInt8) :
    base64 [a, b] = (digitsOf 3 ((a.toNat <<< 8 + b.toNat) <<< 2)).map base64Digit := by
  have ha := a.toNat_lt
  have hb := b.toNat_lt
  have hfirst : (a.toNat * 256 + b.toNat) * 4 / 4096 < 64 := by omega
  rw [base64, base64Char_of_lt hfirst, base64Char_mod, base64Char_mod, Nat.shiftLeft_eq, Nat.shiftLeft_eq,
    digitsOf_three, digitsOf_two]
  rfl

theorem base64_three (a b c : UInt8) (rest : List UInt8) : base64 (a :: b :: c :: rest) =
    (digitsOf 4 ((a.toNat <<< 8 + b.toNat) <<< 8 + c.toNat)).map base64Digit ++ base64 rest := by
  have ha := a.toNat_lt
  have hb := b.toNat_lt
  have hc := c.toNat_lt
  have hfirst : ((a.toNat * 256 + b.toNat) * 256 + c.toNat) / 262144 < 64 := by omega
  rw [base64, base64Char_of_lt hfirst, base64Char_mod, base64Char_mod, base64Char_mod, Nat.shiftLeft_eq,
    Nat.shiftLeft_eq, digitsOf_four, digitsOf_three, digitsOf_two]
  rfl

/-- One byte takes two digits, two take three, and three take four. -/
theorem base64Url_base64 : ∀ bytes : List UInt8, Base64Url bytes (base64 bytes)
  | [] => ⟨[], 0, rfl, rfl, by decide⟩
  | [a] => by
    refine ⟨_, 4, base64_one a, ?_, by decide⟩
    have hpack : bits (8 + 4) (a.toNat <<< 4 + 0) = bits 8 a.toNat ++ bits 4 0 := bits_pack (by decide)
    rw [digitBits_digitsOf, ← bits_zeros]
    exact hpack
  | [a, b] => by
    refine ⟨_, 2, base64_two a b, ?_, by decide⟩
    have hpack : bits (16 + 2) ((a.toNat <<< 8 + b.toNat) <<< 2 + 0) = _ ++ bits 2 0 := bits_pack (by decide)
    rw [digitBits_digitsOf, ← bits_zeros, byteBits_cons, byteBits_cons]
    exact hpack.trans (by rw [bits_two_bytes, byteBits_nil, List.append_nil, List.append_assoc])
  | a :: b :: c :: rest => by
    obtain ⟨digits, fill, htext, hbits, hfill⟩ := base64Url_base64 rest
    refine ⟨digitsOf 4 ((a.toNat <<< 8 + b.toNat) <<< 8 + c.toNat) ++ digits, fill, ?_, ?_, hfill⟩
    · rw [base64_three, htext, List.map_append]
    · rw [digitBits_append, digitBits_digitsOf, hbits]
      have hpack : bits (16 + 8) ((a.toNat <<< 8 + b.toNat) <<< 8 + c.toNat) = _ ++ bits 8 c.toNat :=
        bits_pack c.toNat_lt
      have hthree : bits (6 * 4) ((a.toNat <<< 8 + b.toNat) <<< 8 + c.toNat) =
          bits 8 a.toNat ++ bits 8 b.toNat ++ bits 8 c.toNat := hpack.trans (by rw [bits_two_bytes])
      rw [hthree]
      simp only [byteBits_cons, List.append_assoc]

/-! ## No other text -/

theorem length_digitBits (digits : List (Fin 64)) : (digitBits digits).length = 6 * digits.length := by
  induction digits with
  | nil => rfl
  | cons n rest ih =>
    have hcons : digitBits (n :: rest) = bits 6 n.val ++ digitBits rest := rfl
    rw [hcons, List.length_append, length_bits, ih, List.length_cons]
    omega

theorem digits_of_bits {xs ys : List (Fin 64)} (h : digitBits xs = digitBits ys) : xs = ys := by
  have hsix : ∀ m n : Fin 64, bits 6 m.val = bits 6 n.val → m = n := by decide +kernel
  have hlength := congrArg List.length h
  rw [length_digitBits, length_digitBits] at hlength
  induction xs generalizing ys with
  | nil =>
    obtain rfl : ys = [] := List.eq_nil_of_length_eq_zero (by rw [List.length_nil] at hlength; omega)
    rfl
  | cons x xs ih =>
    cases ys with
    | nil =>
      rw [List.length_cons, List.length_nil] at hlength
      omega
    | cons y ys =>
      have hcons : bits 6 x.val ++ digitBits xs = bits 6 y.val ++ digitBits ys := h
      obtain ⟨hfirst, hrest⟩ := List.append_inj hcons (by rw [length_bits, length_bits])
      rw [hsix x y hfirst, ih hrest (by rw [List.length_cons, List.length_cons] at hlength; omega)]

/-- How many zeros fill up the last digit hangs on the number of bytes. -/
theorem Base64Url.unique {bytes : List UInt8} {xs ys : List Char} (hx : Base64Url bytes xs) (hy : Base64Url bytes ys) :
    xs = ys := by
  obtain ⟨ms, i, rfl, hm, hi⟩ := hx
  obtain ⟨ns, j, rfl, hn, hj⟩ := hy
  have hms := congrArg List.length hm
  have hns := congrArg List.length hn
  rw [length_digitBits, List.length_append, List.length_replicate] at hms hns
  obtain rfl : i = j := by omega
  rw [digits_of_bits (hm.trans hn.symm)]

end ClaimRelay.Text
