import PreparedSql.Text.Blank

/-!
# Numerals

Numbers appear in markers and in generated names as decimal numerals: digits,
at least one of them, from which the number can be read back.
-/

namespace PreparedSql.Text

theorem isBlank_of_isDigit {c : Char} (h : c.isDigit = true) : isBlank c = false := by
  have hrange : 48 ≤ c.toNat ∧ c.toNat ≤ 57 := by
    simpa [Char.isDigit, UInt32.le_iff_toNat_le] using h
  simp only [isBlank, Bool.or_eq_false_iff, Bool.and_eq_false_iff, decide_eq_false_iff_not,
    beq_eq_false_iff_ne]
  omega

theorem isDigit_of_mem_numeral {c : Char} {n : Nat} (h : c ∈ (toString n).toList) :
    c.isDigit = true := by
  rw [Nat.toString_eq_repr, Nat.toList_repr] at h
  exact Nat.isDigit_of_mem_toDigits (by decide) (by decide) h

theorem numeral_ne_nil (n : Nat) : (toString n).toList ≠ [] := by
  rw [Nat.toString_eq_repr, Nat.toList_repr]
  exact Nat.toDigits_ne_nil

/-- A numeral ends in a digit. -/
theorem exists_getLast?_numeral (n : Nat) :
    ∃ c, (toString n).toList.getLast? = some c ∧ c.isDigit = true := by
  refine ⟨_, List.getLast?_eq_some_getLast (numeral_ne_nil n), ?_⟩
  exact isDigit_of_mem_numeral (List.getLast_mem _)

/-- A number can be read back from its numeral. -/
theorem numeral_injective {m n : Nat} (h : (toString m).toList = (toString n).toList) : m = n := by
  simp only [Nat.toString_eq_repr, Nat.toList_repr] at h
  have hread := congrArg (Nat.ofDigitChars 10 · 0) h
  simpa only [Nat.ofDigitChars_ten_toDigits] using hread

end PreparedSql.Text
