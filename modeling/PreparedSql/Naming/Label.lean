import PreparedSql.Object

/-!
# Table labels

What naming sees of a table occurrence: who it is, the name asked for, and the
name of the table it reads, if it reads one.
-/

namespace PreparedSql

structure TableLabel where
  id : TableId
  /-- The name of the base table; a derived table has none. -/
  table : Option String
  /-- The name asked for. -/
  requested : Option String
deriving DecidableEq, Repr

/-- A requested name counts only when it differs from the table's own. -/
def TableLabel.explicitName (t : TableLabel) : Option String :=
  t.requested.filter fun name => t.table != some name

end PreparedSql
