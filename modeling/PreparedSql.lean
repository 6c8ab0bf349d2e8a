import PreparedSql.Arguments
import PreparedSql.Compiler
import PreparedSql.Decimal.Double
import PreparedSql.Decimal.Shortest
import PreparedSql.Dialect
import PreparedSql.Draft.Basic
import PreparedSql.Draft.Clause
import PreparedSql.Draft.Resolve
import PreparedSql.Draft.Statement
import PreparedSql.Failure
import PreparedSql.Fingerprint
import PreparedSql.Fragment
import PreparedSql.Identifier
import PreparedSql.Layout.Page
import PreparedSql.Literal
import PreparedSql.Naming.Alias
import PreparedSql.Naming.Label
import PreparedSql.Naming.Names
import PreparedSql.Object
import PreparedSql.Proofs.Layout.Ink
import PreparedSql.Proofs.Template.Tree
import PreparedSql.Statement.Basic
import PreparedSql.Statement.Build
import PreparedSql.Statement.Grouping
import PreparedSql.Statement.Operator
import PreparedSql.Store
import PreparedSql.Template.Basic
import PreparedSql.Template.Condense
import PreparedSql.Template.Fill
import PreparedSql.Template.Step
import PreparedSql.Text.Blank
import PreparedSql.Text.Casing
import PreparedSql.Text.Digest
import PreparedSql.Text.Doubled
import PreparedSql.Text.Hex
import PreparedSql.Text.Lowercase
import PreparedSql.Value
import PreparedSql.Proofs.Layout.Held
import PreparedSql.Proofs.Template.Condensing
import PreparedSql.Proofs.Template.Steps
import PreparedSql.Proofs.Draft.Neatness
import PreparedSql.Proofs.Compiler.Spacing
import PreparedSql.Proofs.Template.Glyphs
import PreparedSql.Proofs.Template.Markers
import PreparedSql.Proofs.Draft.ParamNames
import PreparedSql.Proofs.Compiler.MarkerNames
import PreparedSql.Proofs.Draft.Writing
import PreparedSql.Proofs.Reading.Token
import PreparedSql.Proofs.Reading.Brackets
import PreparedSql.Proofs.Reading.Precedence
import PreparedSql.Proofs.Reading.Grouping
import PreparedSql.Proofs.Reading.Expressions
import PreparedSql.Proofs.Reading.Operands
import PreparedSql.Proofs.Reading.Conditions
import PreparedSql.Proofs.Reading.SetOperations
import PreparedSql.Proofs.Naming.Fresh
import PreparedSql.Proofs.Draft.Scoping
import PreparedSql.Proofs.Statement.References
import PreparedSql.Proofs.Draft.Faults
import PreparedSql.Proofs.Statement.Admissible
import PreparedSql.Proofs.Draft.Composition
import PreparedSql.Proofs.Naming.Requests
import PreparedSql.Proofs.Statement.Needs
import PreparedSql.Proofs.Store.Transparency
import PreparedSql.Proofs.Draft.Contents
import PreparedSql.Proofs.Template.Reached
import PreparedSql.Proofs.Compiler.LineBreaks
import PreparedSql.Proofs.Draft.Renaming
import PreparedSql.Proofs.Draft.Resolution
import PreparedSql.Proofs.Draft.Wording
import PreparedSql.Proofs.Layout.Pieces
import PreparedSql.Proofs.Statement.Closure
import PreparedSql.Proofs.Statement.Contents
import PreparedSql.Proofs.Statement.Relabeling
import PreparedSql.Proofs.Statement.Renaming
import PreparedSql.Proofs.Template.Correspondence
import PreparedSql.Proofs.Template.LineBreaks
import PreparedSql.Proofs.Template.Renaming
import PreparedSql.Proofs.Template.Uniform
import PreparedSql.Proofs.Text.Numerals
import PreparedSql.Proofs.Compiler.Rows
import PreparedSql.Proofs.Layout.Below
import PreparedSql.Proofs.Template.Fronts
import PreparedSql.Proofs.Template.NormalForm
import PreparedSql.Proofs.Template.Relevance
import PreparedSql.Proofs.Template.Rows
import PreparedSql.Proofs.Template.Sinks
import PreparedSql.Proofs.Layout.Separation
import PreparedSql.Proofs.Layout.Sheet
import PreparedSql.Proofs.Naming.Scopes
import PreparedSql.Proofs.Template.Fixpoint
import PreparedSql.Proofs.Template.Separation
import PreparedSql.Proofs.Template.Traces
import PreparedSql.Proofs.Compiler.Indentation
import PreparedSql.Proofs.Draft.Lines
import PreparedSql.Proofs.Layout.Lines
import PreparedSql.Proofs.Statement.Lines
import PreparedSql.Proofs.Template.Lines
import PreparedSql.Proofs.Template.Static
import PreparedSql.Proofs.Reading.Quoted
import PreparedSql.Proofs.Reading.Literals
import PreparedSql.Proofs.Reading.Counts
import PreparedSql.Proofs.Naming.Search
