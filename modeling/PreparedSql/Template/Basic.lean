import PreparedSql.Fragment
import PreparedSql.Identifier

/-!
# Templates

A template is a written statement together with the format in which it is to be
read: how markers are spelled, how names are quoted, whether lines are broken.
-/

namespace PreparedSql

structure Format where
  markers : MarkerStyle
  quote : QuoteMark
  pretty : Bool
deriving DecidableEq, Repr

structure Template where
  fragments : List Fragment
  format : Format
  /-- Whether spacing is already resolved. -/
  condensed : Bool
deriving DecidableEq, Repr

namespace Template

/-- All fragments, those inside others included. -/
def count (t : Template) : Nat := Fragment.countAll t.fragments

/-- Whether every execution writes the same text. -/
def isStatic (t : Template) : Bool := Fragment.allStatic t.fragments

end Template

end PreparedSql
