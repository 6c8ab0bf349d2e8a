import PreparedSql.Naming.Label
import PreparedSql.Object
import PreparedSql.Statement.Operator
import PreparedSql.Value

/-!
# Statements

The tree of a relational statement. Queries nest inside expressions and inside
the `FROM` clause, so expressions, queries and table occurrences are defined
together.

Four kinds of expression are completed at execution only: parameters, inline
texts, choices between two expressions, and tests against a collection.

A column names its table by identity. The occurrence itself stands in a `FROM`
clause or is the target of the statement; whether one is in scope is found out
when names are given.
-/

namespace PreparedSql

/-- Asks for an index on a table of the `FROM` clause, always or only when the
choice `when?` takes its alternative. -/
structure IndexHint where
  table : TableId
  index : String
  when? : Option Key
deriving DecidableEq, Repr

mutual

inductive Expr where
  | value (v : Value)
  | column (table : TableId) (name : String)
  | param (p : Param)
  /-- Text supplied at execution and written as it is. -/
  | inline (key : Key)
  /-- The number registered for a type. -/
  | typeId (type : EntityType)
  | and (operands : List Expr)
  | or (operands : List Expr)
  | not (operand : Expr)
  | binary (op : BinaryOp) (lhs rhs : Expr)
  | isNull (negated : Bool) (operand : Expr)
  | like (negated : Bool) (operand pattern : Expr)
  | inList (operand : Expr) (list : List Expr)
  | inQuery (operand : Expr) (query : Query)
  /-- Tests expressions against the rows of a collection. -/
  | inCollection (style : CollectionTest) (operands : List Expr) (collection : Key)
  | existsRow (negated : Bool) (query : Query)
  | count (distinct : Bool) (argument filter : Option Expr)
  | call (name : String) (arguments : List Expr)
  | record (fields : List Expr)
  | subquery (query : Query)
  /-- One of two expressions, picked at execution. -/
  | choice (key : Key) (main alternative : Expr)

structure Query where
  body : QueryBody
  orderBy : List OrderTerm
  limit : Option Limit
  lock : Option Lock

inductive QueryBody where
  | select (select : Select)
  | setOp (op : SetOp) (operands : List Query)

structure Select where
  distinct : Bool
  projection : List Projected
  /-- The `FROM` clause; empty when nothing is read. -/
  tables : List JoinedTable
  filter : Option Expr
  groupBy : List Expr
  having : Option Expr
  hints : List IndexHint

/-- A projected expression, optionally named. -/
structure Projected where
  expr : Expr
  label : Option String

structure OrderTerm where
  expr : Expr
  direction : Option Direction

structure Limit where
  count : Expr
  offset : Option Expr

/-- An item of the `FROM` clause: a table and what is joined to it. -/
structure JoinedTable where
  table : TableUse
  joins : List Join

structure Join where
  kind : JoinKind
  table : TableUse
  constraint : Option Expr

/-- One occurrence of a table in a statement. A self-join has two occurrences of
one table. -/
inductive TableUse where
  | base (id : TableId) (table : Table) (requested : Option String)
  /-- A query in the `FROM` clause. -/
  | derived (id : TableId) (query : Query)

end

namespace TableUse

def id : TableUse → TableId
  | .base id _ _ => id
  | .derived id _ => id

def baseTable? : TableUse → Option Table
  | .base _ table _ => some table
  | .derived _ _ => none

/-- What naming sees of the occurrence. -/
def label : TableUse → TableLabel
  | .base id table requested => ⟨id, some table.name, requested⟩
  | .derived id _ => ⟨id, none, none⟩

end TableUse

/-- Where the rows of an insert come from. -/
inductive InsertSource where
  | values (rows : List (List Expr))
  | query (query : Query)
  /-- One row for each row of a collection. -/
  | collection (key : Key)

structure Insert where
  table : Table
  columns : List String
  source : InsertSource
  returning : List String

structure Assignment where
  column : String
  expr : Expr

structure Update where
  target : TableUse
  assignments : List Assignment
  filter : Option Expr
  returning : List Projected

structure Delete where
  target : TableUse
  filter : Option Expr
  returning : List Projected

inductive Statement where
  | query (query : Query)
  | insert (insert : Insert)
  | update (update : Update)
  | delete (delete : Delete)

def Statement.name : Statement → String
  | .query _ => "query"
  | .insert _ => "insert"
  | .update _ => "update"
  | .delete _ => "delete"

end PreparedSql
