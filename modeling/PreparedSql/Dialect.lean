/-!
# Dialects

A dialect is a database's way of writing SQL. What it supports is listed once,
in `Dialect.features`; the writer never asks which dialect it is writing when a
feature answers the question.
-/

namespace PreparedSql

inductive Dialect where
  | sqlite
  | postgresql
  | mysql
deriving DecidableEq, Repr

/-- How a parameter marker is spelled: `?`, `$1`, `?1` or `:name`. -/
inductive MarkerStyle where
  | positional
  | dollar
  | question
  | named
deriving DecidableEq, Repr

/-- Numbered and named markers of one parameter share a single bound value;
positional ones bind a value per occurrence. -/
def MarkerStyle.shares : MarkerStyle → Bool
  | .positional => false
  | .dollar | .question | .named => true

/-- How a statement tells the planner which index to use. -/
inductive HintForm where
  | unsupported
  | useIndex
  | indexedBy
deriving DecidableEq, Repr

/-- What a dialect supports. -/
structure Features where
  /-- `RETURNING` clauses. -/
  returning : Bool
  /-- `FOR UPDATE` and `FOR SHARE`. -/
  selectForUpdate : Bool
  fullOuterJoin : Bool
  rightJoin : Bool
  indexHints : HintForm
  /-- Table names qualified by a schema. -/
  schemas : Bool
  /-- Schema names qualified by a catalog. -/
  catalogs : Bool
  /-- `COUNT(...) FILTER (WHERE ...)`. -/
  countFilter : Bool
  /-- `TRUE` and `FALSE` literals. -/
  nativeBool : Bool
  /-- A filter without tables needs `FROM DUAL`. -/
  selectWithoutFromNeedsDual : Bool
  markers : MarkerStyle
deriving DecidableEq, Repr

namespace Dialect

def name : Dialect → String
  | .sqlite => "sqlite"
  | .postgresql => "postgresql"
  | .mysql => "mysql"

def features : Dialect → Features
  | .sqlite =>
    { returning := true, selectForUpdate := false, fullOuterJoin := true, rightJoin := true
      indexHints := .indexedBy, schemas := true, catalogs := false, countFilter := true
      nativeBool := false, selectWithoutFromNeedsDual := false, markers := .question }
  | .postgresql =>
    { returning := true, selectForUpdate := true, fullOuterJoin := true, rightJoin := true
      indexHints := .unsupported, schemas := true, catalogs := false, countFilter := true
      nativeBool := true, selectWithoutFromNeedsDual := false, markers := .dollar }
  | .mysql =>
    { returning := false, selectForUpdate := true, fullOuterJoin := false, rightJoin := true
      indexHints := .useIndex, schemas := true, catalogs := false, countFilter := false
      nativeBool := true, selectWithoutFromNeedsDual := true, markers := .positional }

/-- Inside a string literal, a backslash starts an escape. -/
def escapesBackslash : Dialect → Bool
  | .mysql => true
  | .sqlite | .postgresql => false

end Dialect

end PreparedSql
