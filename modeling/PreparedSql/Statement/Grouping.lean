import PreparedSql.Statement.Basic

/-!
# Grouping

Which expressions need parentheses where. A choice is decided at execution, so
it counts as whatever either branch may be.
-/

namespace PreparedSql.Expr

/-- Whether the expression is written as a disjunction, or may be. -/
def isDisjunction : Expr → Bool
  | .or _ => true
  | .inCollection .disjunction _ _ => true
  | .choice _ main alternative => main.isDisjunction || alternative.isDisjunction
  | _ => false

/-- Whether the expression falls apart as an operand of a comparison. -/
def isCompound : Expr → Bool
  | .and _ => true
  | .binary _ _ _ => true
  | .choice _ main alternative => main.isCompound || alternative.isCompound
  | e => e.isDisjunction

/-- Whether the expression falls apart as a term of a conjunction. -/
def splitsConjunction : Expr → Bool
  | .and _ => true
  | .choice _ main alternative => main.splitsConjunction || alternative.splitsConjunction
  | e => e.isDisjunction

end PreparedSql.Expr
