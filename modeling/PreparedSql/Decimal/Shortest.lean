/-!
# Shortest decimals

A binary floating-point number `m * 2 ^ q` is the nearest representable one to
every real in an interval around it. The shortest decimal for it is a point of
that interval on the coarsest grid `k * 10 ^ e` that has one; of two such points
the nearer is taken, and of two equally near ones the upper.

All comparisons are exact. Numbers are measured in quarters of the last binary
place, so that the ends of the interval are whole numbers too, and both sides
are scaled to naturals before they are compared.
-/

namespace PreparedSql.Decimal

/-- The reals that round to a positive binary number. In units of
`2 ^ exponent`, the number itself is at `middle` and the ends are at `low` and
`high`; `closed` says whether the ends round to it too. -/
structure Interval where
  low : Nat
  middle : Nat
  high : Nat
  exponent : Int
  closed : Bool
deriving DecidableEq, Repr

/-- The interval of `m * 2 ^ q`. The gap below a number is half as wide when
the number starts a binade, which `narrow` tells. Ends belong to the interval
when the significand is even, as ties round to even. -/
def Interval.around (m : Nat) (q : Int) (narrow : Bool) : Interval where
  low := 4 * m - if narrow then 1 else 2
  middle := 4 * m
  high := 4 * m + 2
  exponent := q - 2
  closed := m % 2 == 0

/-- A decimal `digits * 10 ^ exponent`. -/
structure Digits where
  digits : Nat
  exponent : Int
deriving DecidableEq, Repr

/-- Factors that bring `k * 10 ^ e` and `x * 2 ^ b` to a common scale: the first
belongs to `k`, the second to `x`. -/
def scales (e b : Int) : Nat × Nat :=
  (Nat.pow 10 e.toNat * Nat.pow 2 (-b).toNat, Nat.pow 2 b.toNat * Nat.pow 10 (-e).toNat)

/-- The better of the two neighbours of the number on the grid `10 ^ e`, if one
of them lies in the interval. -/
def Interval.onGrid? (i : Interval) (e : Int) : Option Digits :=
  let (grid, unit) := scales e i.exponent
  let inside (k : Nat) : Bool :=
    if i.closed then i.low * unit ≤ k * grid && k * grid ≤ i.high * unit
    else i.low * unit < k * grid && k * grid < i.high * unit
  let below := i.middle * unit / grid
  let above := below + 1
  match inside below, inside above with
  | false, false => none
  | true, false => some ⟨below, e⟩
  | false, true => some ⟨above, e⟩
  | true, true =>
    if i.middle * unit - below * grid < above * grid - i.middle * unit then some ⟨below, e⟩
    else some ⟨above, e⟩

/-- The point on the coarsest grid, from `10 ^ top` down over `count` grids. -/
def Interval.shortest? (i : Interval) (top : Int) : (count : Nat) → Option Digits
  | 0 => none
  | count + 1 =>
    match i.onGrid? top with
    | some d => some d
    | none => i.shortest? (top - 1) count

/-- Positional notation: the digits with a point in its place, or followed by
zeros when the decimal is a whole number. -/
def Digits.positional (d : Digits) : List Char :=
  let ds := Nat.toDigits 10 d.digits
  let places := (-d.exponent).toNat
  if places = 0 then ds ++ List.replicate d.exponent.toNat '0'
  else if places < ds.length then
    ds.take (ds.length - places) ++ '.' :: ds.drop (ds.length - places)
  else '0' :: '.' :: List.replicate (places - ds.length) '0' ++ ds

end PreparedSql.Decimal
