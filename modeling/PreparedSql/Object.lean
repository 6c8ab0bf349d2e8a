/-!
# Database objects

Statements refer to tables, schemas, types and parameters. Two objects may bear
the same name and still be different, so each carries an identity of its own;
objects are the same when they are equal, identity included.
-/

namespace PreparedSql

/-- Names a text, a choice or a collection that an execution supplies. -/
abbrev Key := String

structure Catalog where
  id : Nat
  name : String
deriving DecidableEq, Repr

/-- A logical schema; its physical name is looked up at execution. -/
structure Schema where
  id : Nat
  name : String
  catalog : Option Catalog
deriving DecidableEq, Repr

/-- A physical table, optionally living in a schema. -/
structure Table where
  name : String
  schema : Option Schema
deriving DecidableEq, Repr

/-- An entity type. Rows of a concrete type carry its registered number;
nothing is ever an instance of an interface alone. -/
structure EntityType where
  id : Nat
  name : String
  interface : Bool
deriving DecidableEq, Repr

/-- A bound parameter. -/
structure Param where
  id : Nat
deriving DecidableEq, Repr

/-- The identity of one occurrence of a table in a statement. -/
structure TableId where
  id : Nat
deriving DecidableEq, Repr

end PreparedSql
