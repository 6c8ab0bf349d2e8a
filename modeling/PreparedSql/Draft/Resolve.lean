import PreparedSql.Draft.Basic
import PreparedSql.Naming.Names

/-!
# Giving names

Goes through a draft in order, giving aliases to tables and names to parameters,
and leaves the fragments of a template. It stops at the first fault, or at the
first column whose table is not in scope.
-/

namespace PreparedSql

/-- Work that may give names and may find the statement faulty. -/
abbrev Naming := StateT Names (Except Cause)

namespace Naming

/-- The alias of a table, given to it on first use. -/
def aliasOf (t : TableLabel) : Naming String := modifyGet (·.aliasOf t)

def paramName (p : Param) : Naming String := modifyGet (·.param p)

/-- What a column is written as. The columns of the statement's own target stand
alone; others are seen through the alias of their table. -/
def column (q : QuoteMark) (bare : Option TableId) (t : TableId) (name : String) :
    Naming String := do
  if bare = some t then return q.quote name
  match (← get).lookup t with
  | some table => return q.column table name
  | none => throw (.malformed (.columnOutOfScope name))

/-- Runs inside a scope. -/
def inScope {α : Type} (inner : Naming α) : Naming α := do
  let mark := (← get).mark
  modify Names.openScope
  let result ← inner
  modify (·.closeScope mark)
  return result

/-- Runs one level further in. -/
def indented {α : Type} (inner : Naming α) : Naming α := do
  modify Names.indented
  let result ← inner
  modify Names.outdented
  return result

/-- Prepares a freshly opened scope. -/
def enter : ScopeKind → Naming Unit
  | .operand | .nested => return ()
  | .target t => do
    modify (·.setAliasing false)
    let _ ← aliasOf t

end Naming

/-- The target whose columns stand alone inside a scope, given the one outside. -/
def ScopeKind.bare (outer : Option TableId) : ScopeKind → Option TableId
  | .operand => outer
  | .nested => none
  | .target t => some t.id

namespace Draft

mutual

/-- The fragments of a part of a draft; the columns of `bare` stand alone. -/
def resolve (q : QuoteMark) (bare : Option TableId) : Draft → Naming (List Fragment)
  | .text s => return [.text s]
  | .delimiter s kind => return [.delimiter s kind]
  | .group children => do
    let fs ← Naming.indented (resolveAll q bare children)
    return [.group true fs]
  | .hole h _ => return [.hole h]
  | .param p => do
    let name ← Naming.paramName p
    return [.hole (.param p name)]
  | .column t name => do
    let s ← Naming.column q bare t name
    return [.text s]
  | .introduce t => do
    let _ ← Naming.aliasOf t
    return []
  | .tableName t => do
    let name ← Naming.aliasOf t
    return if t.table = some name then [] else [.text (q.quote name)]
  | .scope kind children =>
    Naming.inScope do
      Naming.enter kind
      resolveAll q (kind.bare bare) children
  | .choice key main alternative => do
    let main ← resolveAll q bare main
    let alternative ← resolveAll q bare alternative
    return [.choice key main alternative]
  | .each key body empty between => do
    let body ← resolveAll q bare body
    let empty ← resolveAll q bare empty
    return [.each key body empty between]
  | .cell index => return [.cell index]
  | .fault cause => throw cause

def resolveAll (q : QuoteMark) (bare : Option TableId) : List Draft → Naming (List Fragment)
  | [] => return []
  | d :: ds => do
    let fs ← resolve q bare d
    let rest ← resolveAll q bare ds
    return fs ++ rest

end

end Draft

end PreparedSql
