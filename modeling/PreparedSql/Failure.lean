import PreparedSql.Decimal.Double
import PreparedSql.Dialect
import PreparedSql.Statement.Operator

/-!
# Failures

A failure is a chain of causes, outermost first. What went wrong is recorded as
data; its wording is fixed by the `message` functions alone.
-/

namespace PreparedSql

/-- What an execution failed to supply. -/
inductive Missing where
  /-- A parameter, by its allocated name. -/
  | param (name : String)
  /-- An inline text, by its key. -/
  | inline (key : String)
  /-- A type that has no registered number. -/
  | type (name : String)
  /-- A cell outside the row of the enclosing collection. -/
  | cell (collection : String) (index width : Nat)
deriving DecidableEq, Repr

def Missing.message : Missing → String
  | .param name => "no value bound for parameter `" ++ name ++ "`"
  | .inline key => "no value bound for placeholder `" ++ key ++ "`"
  | .type name => "type `" ++ name ++ "` has no registered type id"
  | .cell collection index width =>
    "cycle `" ++ collection ++ "` has no item " ++ toString index ++ " (row width is " ++
      toString width ++ ")"

/-- Parts of SQL that a dialect may lack. -/
inductive Feature where
  | rowLocking
  | rightJoin
  | fullOuterJoin
  | indexHint
  | returning
deriving DecidableEq, Repr

def Feature.name : Feature → String
  | .rowLocking => "row locking (FOR UPDATE / FOR SHARE)"
  | .rightJoin => "RIGHT JOIN"
  | .fullOuterJoin => "FULL OUTER JOIN"
  | .indexHint => "index hint syntax"
  | .returning => "RETURNING"

/-- Why a statement cannot be written in a dialect. -/
inductive Limitation where
  | lacks (dialect : Dialect) (feature : Feature)
  | operandClauses (op : SetOp)
  | notFinite (x : Double)
  | other (text : String)
deriving DecidableEq, Repr

def Limitation.message : Limitation → String
  | .lacks dialect feature => feature.name ++ " is not supported by " ++ dialect.name
  | .operandClauses op => op.sql ++ " operands cannot carry ORDER BY, LIMIT or locking clauses"
  | .notFinite x => x.text ++ " cannot be written as a SQL literal"
  | .other text => text

/-- Why a statement makes no sense in any dialect. -/
inductive Flaw where
  | setOperandCount (op : SetOp)
  | emptyProjection
  | hintOutsideFrom
  | hintOnDerivedTable
  | constrainedCrossJoin
  | unconstrainedJoin (kind : JoinKind)
  | noColumns
  | noRows
  | rowWidth (values columns : Nat)
  | noAssignments
  | targetNotTable
  | countDistinctStar
  | columnOutOfScope (name : String)
  | listTestArity (collection : String) (count : Nat)
  | emptyDisjunction (collection : String)
  | other (text : String)
deriving DecidableEq, Repr

def Flaw.message : Flaw → String
  | .setOperandCount op => op.sql ++ " needs at least two operands"
  | .emptyProjection => "select has an empty projection"
  | .hintOutsideFrom => "index hint references a table outside the FROM clause"
  | .hintOnDerivedTable => "index hints only apply to base tables"
  | .constrainedCrossJoin => "CROSS JOIN cannot have a join constraint"
  | .unconstrainedJoin kind => kind.sql ++ " requires a join constraint"
  | .noColumns => "insert has no columns"
  | .noRows => "insert has no rows"
  | .rowWidth values columns =>
    "insert row has " ++ toString values ++ " values for " ++ toString columns ++ " columns"
  | .noAssignments => "update has no assignments"
  | .targetNotTable => "the target of UPDATE or DELETE must be a table"
  | .countDistinctStar => "COUNT(DISTINCT *) is not valid"
  | .columnOutOfScope name => "column `" ++ name ++ "` references a table that is not in scope"
  | .listTestArity collection count =>
    "`IN` over collection `" ++ collection ++ "` takes exactly one expression, got " ++
      toString count
  | .emptyDisjunction collection =>
    "collection `" ++ collection ++ "` is matched against no expressions"
  | .other text => text

/-- One link of a failure. -/
inductive Cause where
  /-- A free-form message. -/
  | note (text : String)
  /-- An error raised outside this library. -/
  | foreign (text : String)
  | missing (what : Missing)
  | unsupported (what : Limitation)
  | malformed (what : Flaw)
deriving DecidableEq, Repr

def Cause.message : Cause → String
  | .note text => text
  | .foreign text => text
  | .missing what => "binding failed: " ++ what.message
  | .unsupported what => "compilation failed: " ++ what.message
  | .malformed what => "invalid statement: " ++ what.message

/-- A cause together with what led to it, the nearest first. -/
structure Failure where
  cause : Cause
  beneath : List Cause := []
deriving DecidableEq, Repr

/-- Context may only be added by a failure that has no causes of its own. -/
inductive ContextError where
  | consequentHasCause
deriving DecidableEq, Repr

def ContextError.message : ContextError → String
  | .consequentHasCause => "consequent error must not already have a cause"

namespace Failure

def causes (f : Failure) : List Cause := f.cause :: f.beneath

/-- All causes, from the most recent context to the root. -/
def message (f : Failure) : String := ": ".intercalate (f.causes.map Cause.message)

/-- The foreign error a failure stands for, if it is one itself. -/
def foreign? (f : Failure) : Option String :=
  match f.cause with
  | .foreign text => some text
  | _ => none

/-- An error raised by text formatting. -/
def formatting : Failure := ⟨.foreign "an error occurred when formatting an argument", []⟩

/-- Puts a cause on top of a failure. -/
def withCause (f : Failure) (cause : Cause) : Failure := ⟨cause, f.causes⟩

/-- Puts `consequent` on top of a failure. -/
def withContext (f consequent : Failure) : Except ContextError Failure :=
  if consequent.beneath.isEmpty then .ok (f.withCause consequent.cause)
  else .error .consequentHasCause

/-- As `withContext`, for a consequent that is in use elsewhere: only its own
message is kept. -/
def withSharedContext (f consequent : Failure) : Failure :=
  f.withCause (.note consequent.cause.message)

@[simp] theorem causes_withCause (f : Failure) (cause : Cause) :
    (f.withCause cause).causes = cause :: f.causes := rfl

end Failure

end PreparedSql
