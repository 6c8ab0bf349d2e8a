/-!
# Operators and clauses

The closed vocabularies of statements, each with its spelling.
-/

namespace PreparedSql

inductive BinaryOp where
  | eq
  | ne
  | lt
  | le
  | gt
  | ge
  | add
  | sub
  | mul
  | div
deriving DecidableEq, Repr

def BinaryOp.sql : BinaryOp → String
  | .eq => "="
  | .ne => "<>"
  | .lt => "<"
  | .le => "<="
  | .gt => ">"
  | .ge => ">="
  | .add => "+"
  | .sub => "-"
  | .mul => "*"
  | .div => "/"

inductive SetOp where
  | union
  | unionAll
  | intersect
  | except
deriving DecidableEq, Repr

def SetOp.sql : SetOp → String
  | .union => "UNION"
  | .unionAll => "UNION ALL"
  | .intersect => "INTERSECT"
  | .except => "EXCEPT"

inductive JoinKind where
  | inner
  | left
  | right
  | full
  | cross
deriving DecidableEq, Repr

def JoinKind.sql : JoinKind → String
  | .inner => "INNER JOIN"
  | .left => "LEFT JOIN"
  | .right => "RIGHT JOIN"
  | .full => "FULL OUTER JOIN"
  | .cross => "CROSS JOIN"

inductive Direction where
  | asc
  | desc
deriving DecidableEq, Repr

def Direction.sql : Direction → String
  | .asc => "ASC"
  | .desc => "DESC"

/-- Row locks taken by a query. -/
inductive Lock where
  | update
  | share
deriving DecidableEq, Repr

def Lock.sql : Lock → String
  | .update => "FOR UPDATE"
  | .share => "FOR SHARE"

/-- How a test against a collection is written: as one `IN` list, or as a
disjunction with one term for each row. -/
inductive CollectionTest where
  | list
  | disjunction
deriving DecidableEq, Repr

end PreparedSql
