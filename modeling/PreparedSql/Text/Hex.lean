/-!
# Hexadecimal digits

Byte strings are written with two capital digits per byte, fingerprints with
sixteen small ones.
-/

namespace PreparedSql.Text

/-- The digit of `n`, reduced to the range of a digit; `ten` is the letter
that stands for ten. -/
def hexDigit (ten : Char) (n : Nat) : Char :=
  let d := n % 16
  if d < 10 then Char.ofNat ('0'.toNat + d) else Char.ofNat (ten.toNat + (d - 10))

/-- The last `width` digits of `n`, most significant first. -/
def hexDigits (ten : Char) : (width : Nat) → (n : Nat) → List Char
  | 0, _ => []
  | width + 1, n => hexDigits ten width (n / 16) ++ [hexDigit ten n]

/-- Two capital digits for each byte. -/
def hexBytes (bytes : List UInt8) : List Char :=
  bytes.flatMap fun b => hexDigits 'A' 2 b.toNat

@[simp] theorem length_hexDigits (ten : Char) (width n : Nat) :
    (hexDigits ten width n).length = width := by
  induction width generalizing n with
  | zero => rfl
  | succ width ih => simp [hexDigits, ih]

end PreparedSql.Text
