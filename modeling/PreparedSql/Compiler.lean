import PreparedSql.Draft.Resolve
import PreparedSql.Draft.Statement
import PreparedSql.Template.Condense

/-!
# Compiling statements

A compiler writes statements in one dialect under one set of options. Its result
is a template that is independent of any execution.
-/

namespace PreparedSql

structure Options where
  /-- Whether tables are given generated aliases. -/
  aliasing : Bool := true
  /-- What parameter names start with. -/
  paramStem : String := "p"
  quoteNames : Bool := true
  /-- Takes the place of the dialect's own marker style. -/
  markers : Option MarkerStyle := none
  /-- Whether lines are broken and indented. -/
  pretty : Bool := false
  /-- Names that no alias may use. -/
  reserved : List String := []
deriving DecidableEq, Repr

structure Compiler where
  dialect : Dialect
  options : Options
deriving DecidableEq, Repr

namespace Compiler

/-- A compiler needs a dialect. -/
def configure (dialect : Option Dialect) (options : Options) : Except Failure Compiler :=
  match dialect with
  | some dialect => .ok ⟨dialect, options⟩
  | none => .error ⟨.note "no SQL flavor configured", []⟩

def format (c : Compiler) : Format where
  markers := c.options.markers.getD c.dialect.features.markers
  quote := if c.options.quoteNames then c.dialect.quoteMark else .plain
  pretty := c.options.pretty

def spelling (c : Compiler) : Spelling := ⟨c.dialect, c.format.quote⟩

/-- Names at the start of a statement: only the reserved ones are taken. -/
def names (c : Compiler) : Names :=
  c.options.reserved.foldl Names.take (.start c.options.paramStem c.options.aliasing)

/-- The fragments of a statement. -/
def fragments (c : Compiler) (statement : Statement) : Except Cause (List Fragment) :=
  (Draft.resolveAll c.format.quote none (statement.draft c.spelling)).run' c.names

/-- Writes a statement as a template whose spacing is not resolved yet. -/
def compile (c : Compiler) (statement : Statement) : Except Failure Template :=
  match c.fragments statement with
  | .ok fragments => .ok ⟨fragments, c.format, false⟩
  | .error cause => .error ⟨cause, []⟩

/-- Writes a statement as a condensed template. -/
def prepare (c : Compiler) (statement : Statement) : Except Failure Template :=
  (c.compile statement).map Template.condense

end Compiler

end PreparedSql
