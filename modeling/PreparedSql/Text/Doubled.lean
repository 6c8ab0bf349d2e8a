/-!
# Doubled characters

Quoted identifiers and string literals protect a character by writing it twice.
Which characters are protected is up to the caller, so one function serves
every quote and every dialect.
-/

namespace PreparedSql.Text

/-- Writes every character that `special` picks twice and all others once. -/
def double (special : Char → Bool) : List Char → List Char
  | [] => []
  | c :: rest => if special c then c :: c :: double special rest else c :: double special rest

@[simp] theorem double_nil (special : Char → Bool) : double special [] = [] := rfl

theorem double_append (special : Char → Bool) (s t : List Char) :
    double special (s ++ t) = double special s ++ double special t := by
  induction s with
  | nil => rfl
  | cons c rest ih => by_cases h : special c <;> simp [double, h, ih]

end PreparedSql.Text
