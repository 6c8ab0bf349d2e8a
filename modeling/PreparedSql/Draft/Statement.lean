import PreparedSql.Draft.Clause

/-!
# Drafts of statements

The draft of a statement is built by recursion over the statement; nothing else
is looked at, so the draft of a part is the same wherever it stands.
-/

namespace PreparedSql

open Draft

mutual

def Expr.draft (s : Spelling) : Expr → List Draft
  | .value v => [literal s v]
  | .column table name => [.column table name]
  | .param p => [.param p]
  | .inline key => [.hole (.inline key) rfl]
  | .typeId t => [.hole (.typeId t) rfl]
  | .and es => conjunction es (Expr.draftEach s es)
  | .or es => disjunction (Expr.draftEach s es)
  | .not e => .text "NOT (" :: e.draft s ++ [.text ")"]
  | .binary op lhs rhs => comparison op lhs rhs (lhs.draft s) (rhs.draft s)
  | .isNull negated e =>
    operand e (e.draft s) ++ [.text (if negated then "IS NOT NULL" else "IS NULL")]
  | .like negated e pattern =>
    operand e (e.draft s) ++ .text (if negated then "NOT LIKE" else "LIKE") ::
      operand pattern (pattern.draft s)
  | .inList e list => membership e (e.draft s) (Expr.draftEach s list)
  | .inQuery e q => operand e (e.draft s) ++ enclosed "IN (" (q.draft s)
  | .inCollection style es key => collectionTest s style key es (Expr.draftEach s es)
  | .existsRow negated q => enclosed (if negated then "NOT EXISTS (" else "EXISTS (") (q.draft s)
  | .count distinct argument filter =>
    count s distinct (Expr.draftOption s argument) (Expr.draftOption s filter)
  | .call name arguments =>
    .text (name ++ "(") :: commas .other (Expr.draftEach s arguments) ++ [.text ")"]
  | .record fields => parens (commas .other (Expr.draftEach s fields))
  | .subquery q => enclosed "(" (q.draft s)
  | .choice key main alternative => [.choice key (main.draft s) (alternative.draft s)]

def Expr.draftEach (s : Spelling) : List Expr → List (List Draft)
  | [] => []
  | e :: es => e.draft s :: Expr.draftEach s es

def Expr.draftOption (s : Spelling) : Option Expr → Option (List Draft)
  | none => none
  | some e => some (e.draft s)

def Query.draft (s : Spelling) : Query → List Draft
  | ⟨body, orderBy, limit, lock⟩ =>
    body.draft s ++ listClause "ORDER BY" (OrderTerm.draftEach s orderBy) ++
      Limit.draftOption s limit ++ Draft.lock s lock

def OrderTerm.draftEach (s : Spelling) : List OrderTerm → List (List Draft)
  | [] => []
  | ⟨e, direction⟩ :: terms =>
    (e.draft s ++ direction.toList.map fun d => .text d.sql) :: OrderTerm.draftEach s terms

def Limit.draftOption (s : Spelling) : Option Limit → List Draft
  | none => []
  | some ⟨count, offset⟩ =>
    clause (.text "LIMIT" :: count.draft s ++
      match Expr.draftOption s offset with
      | none => []
      | some d => .text "OFFSET" :: d)

def QueryBody.draft (s : Spelling) : QueryBody → List Draft
  | .select select => select.draft s
  | .setOp op operands =>
    if operands.length < 2 then [malformed (.setOperandCount op)]
    else Query.draftOperands s op true operands

/-- The operands of a set operation, each in a scope of its own. -/
def Query.draftOperands (s : Spelling) (op : SetOp) (first : Bool) : List Query → List Draft
  | [] => []
  | ⟨body, orderBy, limit, lock⟩ :: operands =>
    (if orderBy.isEmpty && limit.isNone && lock.isNone then
      (if first then [] else clause (.text op.sql :: clause [])) ++
        [.scope .operand (body.draft s)]
    else [unsupported (.operandClauses op)]) ++
      Query.draftOperands s op false operands

/-- Every table is introduced before the projection refers to it. -/
def Select.draft (s : Spelling) : Select → List Draft
  | select@⟨distinct, projection, tables, filter, groupBy, having, hints⟩ =>
    if projection.isEmpty then [malformed .emptyProjection]
    else
      select.labels.map .introduce ++
      (if select.hintsApply then [] else [malformed .hintOutsideFrom]) ++
      [.text "SELECT"] ++
      (if distinct then [.text "DISTINCT"] else []) ++
      [.group (commas .column (Projected.draftEach s projection))] ++
      (if tables.isEmpty then
        if filter.isSome && s.features.selectWithoutFromNeedsDual then
          clause [.text "FROM DUAL"]
        else []
      else clause (.text "FROM" :: commas .other (JoinedTable.draftEach s hints tables))) ++
      optionalClause "WHERE" (Expr.draftOption s filter) ++
      listClause "GROUP BY" (Expr.draftEach s groupBy) ++
      optionalClause "HAVING" (Expr.draftOption s having)

def Projected.draftEach (s : Spelling) : List Projected → List (List Draft)
  | [] => []
  | ⟨e, label⟩ :: items => projected s (e.draft s) label :: Projected.draftEach s items

def JoinedTable.draftEach (s : Spelling) (hints : List IndexHint) :
    List JoinedTable → List (List Draft)
  | [] => []
  | ⟨table, joins⟩ :: tables =>
    (table.draft s hints ++ Join.draftAll s hints joins) :: JoinedTable.draftEach s hints tables

def Join.draftAll (s : Spelling) (hints : List IndexHint) : List Join → List Draft
  | [] => []
  | ⟨kind, table, constraint⟩ :: joins =>
    (match joinFault? s kind constraint.isSome with
      | some found => [found]
      | none =>
        clause (.text kind.sql :: table.draft s hints) ++
          match Expr.draftOption s constraint with
          | none => []
          | some d => .text "ON" :: d) ++
      Join.draftAll s hints joins

/-- A table that is read, its alias, and the index hints on it. -/
def TableUse.draft (s : Spelling) (hints : List IndexHint) : TableUse → List Draft
  | .base id table requested =>
    qualifiedName s table ++ .tableName ⟨id, some table.name, requested⟩ ::
      hintsOn s false hints id
  | .derived id q =>
    enclosed "(" (q.draft s) ++ .tableName ⟨id, none, none⟩ :: hintsOn s true hints id

end

/-! The drafts of the members of a list are the list of their drafts. -/

theorem Expr.draftEach_eq_map (s : Spelling) (es : List Expr) :
    Expr.draftEach s es = es.map (·.draft s) := by
  induction es with
  | nil => rfl
  | cons e es ih => simp [Expr.draftEach, ih]

theorem Expr.draftOption_eq_map (s : Spelling) (e : Option Expr) :
    Expr.draftOption s e = e.map (·.draft s) := by
  cases e <;> rfl

theorem Projected.draftEach_eq_map (s : Spelling) (items : List Projected) :
    Projected.draftEach s items = items.map fun i => projected s (i.expr.draft s) i.label := by
  induction items with
  | nil => rfl
  | cons i items ih =>
    obtain ⟨e, label⟩ := i
    simp [Projected.draftEach, ih]

theorem JoinedTable.draftEach_eq_map (s : Spelling) (hints : List IndexHint)
    (tables : List JoinedTable) :
    JoinedTable.draftEach s hints tables =
      tables.map fun t => t.table.draft s hints ++ Join.draftAll s hints t.joins := by
  induction tables with
  | nil => rfl
  | cons t tables ih =>
    obtain ⟨table, joins⟩ := t
    simp [JoinedTable.draftEach, ih]

/-- The rows of an insert into `width` columns. -/
def InsertSource.draft (s : Spelling) (width : Nat) : InsertSource → List Draft
  | .values rows =>
    if rows.isEmpty then [malformed .noRows]
    else match rows.find? (·.length != width) with
      | some row => [malformed (.rowWidth row.length width)]
      | none =>
        clause (.text "VALUES" ::
          commas .row (rows.map fun row => parens (commas .other (Expr.draftEach s row))))
  | .query q => clause [nested (q.draft s)]
  | .collection key =>
    let cells := (List.range width).map fun index => [Draft.cell index]
    let nulls := List.replicate width [Draft.text "NULL"]
    clause [.each key (.text "SELECT" :: commas .other cells)
      (.text "SELECT" :: commas .other nulls ++ noRows s) " UNION ALL "]

def Insert.draft (s : Spelling) (i : Insert) : List Draft :=
  if i.columns.isEmpty then [malformed .noColumns]
  else
    .text "INSERT INTO" :: qualifiedName s i.table ++
    parens (commas .other (i.columns.map fun c => [ident s c])) ++
    i.source.draft s i.columns.length ++
    Draft.returning s (i.returning.map fun c => [ident s c])

/-- A statement that changes the rows of a table, which it names directly. -/
def TableUse.draftTarget (target : TableUse) (ds : List Draft) : List Draft :=
  match target with
  | .base _ _ _ => [.scope (.target target.label) ds]
  | .derived _ _ => [malformed .targetNotTable]

def Assignment.draft (s : Spelling) (a : Assignment) : List Draft :=
  ident s a.column :: .text "=" :: a.expr.draft s

def Update.draft (s : Spelling) (u : Update) : List Draft :=
  if u.assignments.isEmpty then [malformed .noAssignments]
  else
    u.target.draftTarget <|
      .text "UPDATE" :: u.target.draft s [] ++
      listClause "SET" (u.assignments.map (·.draft s)) ++
      optionalClause "WHERE" (Expr.draftOption s u.filter) ++
      Draft.returning s (Projected.draftEach s u.returning)

def Delete.draft (s : Spelling) (d : Delete) : List Draft :=
  d.target.draftTarget <|
    .text "DELETE FROM" :: d.target.draft s [] ++
    optionalClause "WHERE" (Expr.draftOption s d.filter) ++
    Draft.returning s (Projected.draftEach s d.returning)

def Statement.draft (s : Spelling) : Statement → List Draft
  | .query q => q.draft s
  | .insert i => i.draft s
  | .update u => u.draft s
  | .delete d => d.draft s

end PreparedSql
