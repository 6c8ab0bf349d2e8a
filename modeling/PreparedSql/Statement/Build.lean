import PreparedSql.Statement.Basic

/-!
# Building statements

Combinators that keep conjunctions and disjunctions flat, and the steps by which
the clauses of a query are filled in.
-/

namespace PreparedSql

namespace Expr

/-- The terms of a conjunction; any other expression is its only term. -/
def conjuncts : Expr → List Expr
  | .and operands => operands
  | e => [e]

def disjuncts : Expr → List Expr
  | .or operands => operands
  | e => [e]

/-- Both expressions, in one flat conjunction. -/
def both (lhs rhs : Expr) : Expr := .and (lhs.conjuncts ++ rhs.conjuncts)

/-- Either expression, in one flat disjunction. -/
def either (lhs rhs : Expr) : Expr := .or (lhs.disjuncts ++ rhs.disjuncts)

def isNullValue : Expr → Bool
  | .value v => v.isNull
  | _ => false

end Expr

namespace Select

/-- Reads nothing and projects nothing. -/
def empty : Select where
  distinct := false
  projection := []
  tables := []
  filter := none
  groupBy := []
  having := none
  hints := []

/-- Restricts the query further. -/
def restrict (s : Select) (filter : Expr) : Select :=
  { s with
    filter := some (match s.filter with
      | none => filter
      | some existing => existing.both filter) }

/-- Appends a table to the `FROM` clause. -/
def read (s : Select) (table : TableUse) : Select :=
  { s with tables := s.tables ++ [⟨table, []⟩] }

/-- Adds a join to the last of some tables. -/
def joinLast (join : Join) : List JoinedTable → List JoinedTable
  | [] => [⟨join.table, []⟩]
  | [last] => [{ last with joins := last.joins ++ [join] }]
  | first :: rest => first :: joinLast join rest

/-- Joins a table to the last one read. The first table has nothing to be joined
to, so it is read as it is. -/
def join (s : Select) (join : Join) : Select :=
  { s with tables := joinLast join s.tables }

end Select

namespace Query

/-- A query with no clauses beyond its body. -/
def ofBody (body : QueryBody) : Query := ⟨body, [], none, none⟩

def isSelect (q : Query) : Bool :=
  match q.body with
  | .select _ => true
  | .setOp _ _ => false

end Query

end PreparedSql
