import PreparedSql.Draft.Basic
import PreparedSql.Literal
import PreparedSql.Statement.Build
import PreparedSql.Statement.Grouping

/-!
# Clauses and operators

How the pieces of expressions and clauses are put together, given the drafts of
what stands inside them. The recursion over statements is in
`PreparedSql.Draft.Statement`.
-/

namespace PreparedSql

namespace Draft

def literal (s : Spelling) (v : Value) : Draft :=
  match v.literal s.dialect with
  | .ok sql => .text sql
  | .error what => unsupported what

/-- An operand of a comparison. -/
def operand (e : Expr) (d : List Draft) : List Draft := parensIf e.isCompound d

/-- A conjunction without terms is true. -/
def conjunction (es : List Expr) (ds : List (List Draft)) : List Draft :=
  if es.isEmpty then [.text "1 = 1"]
  else words "AND" (List.zipWith parensIf (es.map Expr.splitsConjunction) ds)

/-- A disjunction without terms is false. -/
def disjunction (ds : List (List Draft)) : List Draft :=
  if ds.isEmpty then [.text "1 = 0"] else words "OR" ds

/-- Equality with `NULL` never holds, so a test for it is meant. -/
def comparison (op : BinaryOp) (lhs rhs : Expr) (l r : List Draft) : List Draft :=
  match op, rhs.isNullValue with
  | .eq, true => operand lhs l ++ [.text "IS NULL"]
  | .ne, true => operand lhs l ++ [.text "IS NOT NULL"]
  | _, _ => operand lhs l ++ .text op.sql :: operand rhs r

/-- Nothing is a member of an empty list, so the operand is not written. -/
def membership (e : Expr) (d : List Draft) (list : List (List Draft)) : List Draft :=
  if list.isEmpty then [.text "1 = 0"]
  else operand e d ++ .text "IN (" :: commas .other list ++ [.text ")"]

/-- A query in parentheses, after an opening that brings its own. -/
def enclosed (opening : String) (q : List Draft) : List Draft :=
  [.text opening, nested q, .text ")"]

/-- `COUNT`, over a filter if there is one. Without filters of its own, a dialect
counts a value that is null where the filter fails. -/
def count (s : Spelling) (distinct : Bool) (argument filter : Option (List Draft)) : List Draft :=
  if distinct && argument.isNone then [malformed .countDistinctStar]
  else
    .text "COUNT(" :: (if distinct then [.text "DISTINCT"] else []) ++
      match filter, s.features.countFilter with
      | none, _ => argument.getD [.text "*"] ++ [.text ")"]
      | some f, true =>
        argument.getD [.text "*"] ++ [.text ")", .text "FILTER (WHERE"] ++ f ++ [.text ")"]
      | some f, false =>
        .text "CASE WHEN" :: f ++ .text "THEN" :: argument.getD [.text "1"] ++
          [.text "END", .text ")"]

/-- What ends a query that gives no rows. -/
def noRows (s : Spelling) : List Draft :=
  (if s.features.selectWithoutFromNeedsDual then [.text "FROM DUAL"] else []) ++
    [.text "WHERE 1 = 0"]

/-- A test against a collection. Without rows, the list test is made against a
query without rows, since membership in a list of `NULL` is not false. -/
def collectionTest (s : Spelling) (style : CollectionTest) (key : Key) (es : List Expr)
    (ds : List (List Draft)) : List Draft :=
  match style, es, ds with
  | .list, [e], [d] =>
    operand e d ++
      [.text "IN (", .each key [.cell 0] (.text "SELECT NULL" :: noRows s) ", ", .text ")"]
  | .list, _, _ => [malformed (.listTestArity key es.length)]
  | .disjunction, [], _ => [malformed (.emptyDisjunction key)]
  | .disjunction, _, _ =>
    let equalities :=
      (List.zipWith operand es ds).mapIdx fun index d => d ++ [.text "=", .cell index]
    [.each key (words "AND" equalities) [.text "1 = 0"] " OR "]

/-- A table's name behind the names of its schema and catalog, as far as the
dialect qualifies names. -/
def qualifiedName (s : Spelling) (t : Table) : List Draft :=
  (match t.schema with
    | none => []
    | some schema =>
      if s.features.schemas then
        (if s.features.catalogs then schema.catalog.toList.map fun c => .hole (.catalog c) rfl
          else []) ++ [.hole (.schema schema) rfl]
      else []) ++
    [ident s t.name]

/-- One index hint on a table that is read. -/
def hint (s : Spelling) (derived : Bool) (h : IndexHint) : List Draft :=
  let ds :=
    match s.features.indexHints with
    | .unsupported => [lacks s .indexHint]
    | .useIndex => [.text "USE INDEX (", ident s h.index, .text ")"]
    | .indexedBy => [.text "INDEXED BY", ident s h.index]
  if derived then [malformed .hintOnDerivedTable]
  else match h.when? with
    | none => ds
    | some key => [.choice key [] ds]

/-- The hints on one of the tables. -/
def hintsOn (s : Spelling) (derived : Bool) (hints : List IndexHint) (t : TableId) : List Draft :=
  (hints.filter (·.table == t)).flatMap (hint s derived)

/-- What is wrong with a join, if anything: all joins but cross joins need a
constraint, and cross joins have none. -/
def joinFault? (s : Spelling) (kind : JoinKind) (constrained : Bool) : Option Draft :=
  if kind = .right && !s.features.rightJoin then some (lacks s .rightJoin)
  else if kind = .full && !s.features.fullOuterJoin then some (lacks s .fullOuterJoin)
  else if kind = .cross && constrained then some (malformed .constrainedCrossJoin)
  else if kind ≠ .cross && !constrained then some (malformed (.unconstrainedJoin kind))
  else none

/-- What is wrong with a join is a fault. -/
theorem exists_of_joinFault? {s : Spelling} {kind : JoinKind} {constrained : Bool}
    {found : Draft} (h : joinFault? s kind constrained = some found) :
    ∃ cause, found = .fault cause := by
  unfold joinFault? at h
  split at h
  · exact ⟨_, (Option.some.inj h).symm⟩
  · split at h
    · exact ⟨_, (Option.some.inj h).symm⟩
    · split at h
      · exact ⟨_, (Option.some.inj h).symm⟩
      · split at h
        · exact ⟨_, (Option.some.inj h).symm⟩
        · cases h

/-- A clause that is there only if it says something. -/
def optionalClause (keyword : String) : Option (List Draft) → List Draft
  | none => []
  | some ds => clause (.text keyword :: ds)

/-- A clause with a list, there only if the list has members. -/
def listClause (keyword : String) (parts : List (List Draft)) : List Draft :=
  if parts.isEmpty then [] else clause (.text keyword :: commas .other parts)

/-- A projected expression and the name it is given. -/
def projected (s : Spelling) (d : List Draft) (label : Option String) : List Draft :=
  d ++ match label with
    | none => []
    | some name => [.text "AS", ident s name]

/-- A row lock, where the dialect has it. -/
def lock (s : Spelling) : Option Lock → List Draft
  | none => []
  | some l =>
    if s.features.selectForUpdate then clause [.text l.sql] else [lacks s .rowLocking]

/-- A `RETURNING` clause, where the dialect has it. -/
def returning (s : Spelling) (parts : List (List Draft)) : List Draft :=
  if parts.isEmpty then []
  else if s.features.returning then clause (.text "RETURNING" :: commas .other parts)
  else [lacks s .returning]

end Draft

/-- The tables of a `FROM` clause, in order. -/
def Select.labels (select : Select) : List TableLabel :=
  select.tables.flatMap fun t => t.table.label :: t.joins.map (·.table.label)

/-- Whether all index hints are on tables of the `FROM` clause. -/
def Select.hintsApply (select : Select) : Bool :=
  select.hints.all fun h => select.labels.any (·.id == h.table)

end PreparedSql
