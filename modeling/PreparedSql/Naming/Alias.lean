/-!
# Generated aliases

The names `a` to `z`, then `a1` to `z1`, then `a2` to `z2`, and so on. The
sequence never repeats a name. So with `n` names taken, one of any `n + 1`
members in a row is free, and a search that refuses at most `n` members and then
takes the next one always finds the first free member.
-/

namespace PreparedSql.Alias

/-- The letter of the `n`-th alias. -/
def letter (n : Nat) : Char := Char.ofNat ('a'.toNat + n % 26)

/-- The number after the letter; the first round of the alphabet has none. -/
def suffix (n : Nat) : String := if n < 26 then "" else toString (n / 26)

/-- The `n`-th alias, counted from zero. -/
def nth (n : Nat) : String := String.singleton (letter n) ++ suffix n

/-- The place of the first alias from `n` on that is not taken, provided that at
most `count` aliases are. -/
def firstFree (taken : String → Bool) : (count n : Nat) → Nat
  | 0, n => n
  | count + 1, n => if taken (nth n) then firstFree taken count (n + 1) else n

end PreparedSql.Alias
