import PreparedSql.Decimal.Shortest

/-!
# Double precision numbers

A double is given by its sixty-four bits, so that equality tells signed zeros
apart and holds of every not-a-number. Its text is the shortest decimal that
reads back, always in positional notation.
-/

namespace PreparedSql

/-- A number in the binary64 format, by its bits. -/
structure Double where
  bits : UInt64
deriving DecidableEq, Repr

namespace Double

def negative (x : Double) : Bool := x.bits.toNat / Nat.pow 2 63 == 1

def biasedExponent (x : Double) : Nat := x.bits.toNat / Nat.pow 2 52 % Nat.pow 2 11

def fraction (x : Double) : Nat := x.bits.toNat % Nat.pow 2 52

/-- Infinities and not-a-numbers use the largest exponent. -/
def isFinite (x : Double) : Bool := x.biasedExponent != 2047

/-- The interval of the magnitude of a finite nonzero double. -/
def interval (x : Double) : Decimal.Interval :=
  if x.biasedExponent = 0 then .around x.fraction (-1074) false
  else
    .around (Nat.pow 2 52 + x.fraction) (x.biasedExponent - 1075)
      (x.fraction == 0 && 1 < x.biasedExponent)

/-- Shortest digits of the magnitude. No double reaches `10 ^ 309`, and
neighbouring doubles are never closer than `10 ^ -324`. -/
def digits (x : Double) : Decimal.Digits :=
  if x.biasedExponent = 0 ∧ x.fraction = 0 then ⟨0, 0⟩
  else (x.interval.shortest? 309 634).getD ⟨0, 0⟩

def sign (x : Double) : List Char := if x.negative then ['-'] else []

/-- The text of a double. Not-a-numbers show no sign. -/
def text (x : Double) : String :=
  if x.isFinite then String.ofList (x.sign ++ x.digits.positional)
  else if x.fraction = 0 then String.ofList (x.sign ++ ['i', 'n', 'f'])
  else "NaN"

end Double

end PreparedSql
