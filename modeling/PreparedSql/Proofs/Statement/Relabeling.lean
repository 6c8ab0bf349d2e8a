import PreparedSql.Draft.Statement
import PreparedSql.Proofs.Template.Renaming

/-!
# Relabelling statements

A relabelling changes what stands at the leaves of a statement: its values, each by its place, and
the identities of its objects. The place of a value is given by the turns that lead to it from the
root.

Whether a statement is well formed, where it needs parentheses and which of its tables a hint is
on depend on its shape, which stays. Only one value counts as part of the shape: a comparison with
`NULL` is written as a test, so a relabelling makes no value null and changes none that is.
-/

namespace PreparedSql

structure Relabeling where
  value : List Nat → Value → Value
  objects : Renaming
  isNull_value : ∀ place v, (value place v).isNull = v.isNull

/-- The relabelling of what lies behind a turn. -/
def Relabeling.below (σ : Relabeling) (turn : Nat) : Relabeling where
  value := fun place => σ.value (turn :: place)
  objects := σ.objects
  isNull_value := fun place => σ.isNull_value (turn :: place)

@[simp] theorem Relabeling.below_objects (σ : Relabeling) (turn : Nat) :
    (σ.below turn).objects = σ.objects := rfl

section Objects

variable (ρ : Renaming)

def Table.rename (t : Table) : Table := { t with schema := t.schema.map ρ.schema }

def TableLabel.rename (t : TableLabel) : TableLabel := { t with id := ρ.table t.id }

def IndexHint.rename (h : IndexHint) : IndexHint := { h with table := ρ.table h.table }

end Objects

mutual

def Expr.relabel (σ : Relabeling) : Expr → Expr
  | .value v => .value (σ.value [] v)
  | .column table name => .column (σ.objects.table table) name
  | .param p => .param (σ.objects.param p)
  | .inline key => .inline key
  | .typeId t => .typeId (σ.objects.type t)
  | .and es => .and (Expr.relabelEach σ es)
  | .or es => .or (Expr.relabelEach σ es)
  | .not e => .not (e.relabel σ)
  | .binary op lhs rhs => .binary op (lhs.relabel (σ.below 0)) (rhs.relabel (σ.below 1))
  | .isNull negated e => .isNull negated (e.relabel σ)
  | .like negated e pattern =>
    .like negated (e.relabel (σ.below 0)) (pattern.relabel (σ.below 1))
  | .inList e list => .inList (e.relabel (σ.below 0)) (Expr.relabelEach (σ.below 1) list)
  | .inQuery e q => .inQuery (e.relabel (σ.below 0)) (q.relabel (σ.below 1))
  | .inCollection style es key => .inCollection style (Expr.relabelEach σ es) key
  | .existsRow negated q => .existsRow negated (q.relabel σ)
  | .count distinct argument filter =>
    .count distinct (Expr.relabelOption (σ.below 0) argument)
      (Expr.relabelOption (σ.below 1) filter)
  | .call name arguments => .call name (Expr.relabelEach σ arguments)
  | .record fields => .record (Expr.relabelEach σ fields)
  | .subquery q => .subquery (q.relabel σ)
  | .choice key main alternative =>
    .choice key (main.relabel (σ.below 0)) (alternative.relabel (σ.below 1))

/-- In a list, a turn leads to the first member or to the rest. -/
def Expr.relabelEach (σ : Relabeling) : List Expr → List Expr
  | [] => []
  | e :: es => e.relabel (σ.below 0) :: Expr.relabelEach (σ.below 1) es

def Expr.relabelOption (σ : Relabeling) : Option Expr → Option Expr
  | none => none
  | some e => some (e.relabel σ)

def Query.relabel (σ : Relabeling) : Query → Query
  | ⟨body, orderBy, limit, lock⟩ =>
    ⟨body.relabel (σ.below 0), OrderTerm.relabelEach (σ.below 1) orderBy,
      Limit.relabelOption (σ.below 2) limit, lock⟩

def OrderTerm.relabelEach (σ : Relabeling) : List OrderTerm → List OrderTerm
  | [] => []
  | ⟨e, direction⟩ :: terms =>
    ⟨e.relabel (σ.below 0), direction⟩ :: OrderTerm.relabelEach (σ.below 1) terms

def Limit.relabelOption (σ : Relabeling) : Option Limit → Option Limit
  | none => none
  | some ⟨count, offset⟩ =>
    some ⟨count.relabel (σ.below 0), Expr.relabelOption (σ.below 1) offset⟩

def QueryBody.relabel (σ : Relabeling) : QueryBody → QueryBody
  | .select select => .select (select.relabel σ)
  | .setOp op operands => .setOp op (Query.relabelEach σ operands)

def Query.relabelEach (σ : Relabeling) : List Query → List Query
  | [] => []
  | q :: qs => q.relabel (σ.below 0) :: Query.relabelEach (σ.below 1) qs

def Select.relabel (σ : Relabeling) : Select → Select
  | ⟨distinct, projection, tables, filter, groupBy, having, hints⟩ =>
    ⟨distinct, Projected.relabelEach (σ.below 0) projection,
      JoinedTable.relabelEach (σ.below 1) tables, Expr.relabelOption (σ.below 2) filter,
      Expr.relabelEach (σ.below 3) groupBy, Expr.relabelOption (σ.below 4) having,
      hints.map (·.rename σ.objects)⟩

def Projected.relabelEach (σ : Relabeling) : List Projected → List Projected
  | [] => []
  | ⟨e, label⟩ :: items =>
    ⟨e.relabel (σ.below 0), label⟩ :: Projected.relabelEach (σ.below 1) items

def JoinedTable.relabelEach (σ : Relabeling) : List JoinedTable → List JoinedTable
  | [] => []
  | ⟨table, joins⟩ :: tables =>
    ⟨table.relabel (σ.below 0), Join.relabelEach (σ.below 1) joins⟩ ::
      JoinedTable.relabelEach (σ.below 2) tables

def Join.relabelEach (σ : Relabeling) : List Join → List Join
  | [] => []
  | ⟨kind, table, constraint⟩ :: joins =>
    ⟨kind, table.relabel (σ.below 0), Expr.relabelOption (σ.below 1) constraint⟩ ::
      Join.relabelEach (σ.below 2) joins

def TableUse.relabel (σ : Relabeling) : TableUse → TableUse
  | .base id table requested =>
    .base (σ.objects.table id) (table.rename σ.objects) requested
  | .derived id q => .derived (σ.objects.table id) (q.relabel σ)

end

def Expr.relabelRows (σ : Relabeling) : List (List Expr) → List (List Expr)
  | [] => []
  | row :: rows => Expr.relabelEach (σ.below 0) row :: Expr.relabelRows (σ.below 1) rows

def InsertSource.relabel (σ : Relabeling) : InsertSource → InsertSource
  | .values rows => .values (Expr.relabelRows σ rows)
  | .query q => .query (q.relabel σ)
  | .collection key => .collection key

def Assignment.relabelEach (σ : Relabeling) : List Assignment → List Assignment
  | [] => []
  | ⟨column, e⟩ :: assignments =>
    ⟨column, e.relabel (σ.below 0)⟩ :: Assignment.relabelEach (σ.below 1) assignments

def Insert.relabel (σ : Relabeling) (i : Insert) : Insert :=
  { i with table := i.table.rename σ.objects, source := i.source.relabel σ }

def Update.relabel (σ : Relabeling) (u : Update) : Update where
  target := u.target.relabel (σ.below 0)
  assignments := Assignment.relabelEach (σ.below 1) u.assignments
  filter := Expr.relabelOption (σ.below 2) u.filter
  returning := Projected.relabelEach (σ.below 3) u.returning

def Delete.relabel (σ : Relabeling) (d : Delete) : Delete where
  target := d.target.relabel (σ.below 0)
  filter := Expr.relabelOption (σ.below 1) d.filter
  returning := Projected.relabelEach (σ.below 2) d.returning

def Statement.relabel (σ : Relabeling) : Statement → Statement
  | .query q => .query (q.relabel σ)
  | .insert i => .insert (i.relabel σ)
  | .update u => .update (u.relabel σ)
  | .delete d => .delete (d.relabel σ)

/-! ## What a relabelling keeps -/

variable (σ : Relabeling)

namespace Expr

theorem isDisjunction_relabel (e : Expr) :
    (e.relabel σ).isDisjunction = e.isDisjunction := by
  fun_induction isDisjunction e generalizing σ with
  | case1 | case2 => rfl
  | case3 _ main alternative hmain halternative =>
    simp only [relabel, isDisjunction, hmain, halternative]
  | case4 e hor htest hchoice => cases e <;> simp_all [relabel, isDisjunction]

theorem isCompound_relabel (e : Expr) : (e.relabel σ).isCompound = e.isCompound := by
  fun_induction isCompound e generalizing σ with
  | case1 | case2 => rfl
  | case3 _ main alternative hmain halternative =>
    simp only [relabel, isCompound, hmain, halternative]
  | case4 e hand hbinary hchoice =>
    rw [← isDisjunction_relabel σ e]
    cases e <;> simp_all [relabel, isCompound]

theorem splitsConjunction_relabel (e : Expr) :
    (e.relabel σ).splitsConjunction = e.splitsConjunction := by
  fun_induction splitsConjunction e generalizing σ with
  | case1 => rfl
  | case2 _ main alternative hmain halternative =>
    simp only [relabel, splitsConjunction, hmain, halternative]
  | case3 e hand hchoice =>
    rw [← isDisjunction_relabel σ e]
    cases e <;> simp_all [relabel, splitsConjunction]

theorem isNullValue_relabel (e : Expr) :
    (e.relabel σ).isNullValue = e.isNullValue := by
  cases e with
  | value v => exact σ.isNull_value [] v
  | _ => rfl

theorem length_relabelEach (es : List Expr) :
    (Expr.relabelEach σ es).length = es.length := by
  induction es generalizing σ with
  | nil => rfl
  | cons e es ih => simp only [relabelEach, List.length_cons, ih]

theorem isEmpty_relabelEach (es : List Expr) :
    (Expr.relabelEach σ es).isEmpty = es.isEmpty := by
  cases es <;> rfl

theorem isSome_relabelOption (e : Option Expr) :
    (Expr.relabelOption σ e).isSome = e.isSome := by
  cases e <;> rfl

end Expr

theorem Query.length_relabelEach (qs : List Query) :
    (Query.relabelEach σ qs).length = qs.length := by
  induction qs generalizing σ with
  | nil => rfl
  | cons q qs ih => simp only [relabelEach, List.length_cons, ih]

theorem OrderTerm.isEmpty_relabelEach (terms : List OrderTerm) :
    (OrderTerm.relabelEach σ terms).isEmpty = terms.isEmpty := by
  cases terms with
  | nil => rfl
  | cons term terms => obtain ⟨e, direction⟩ := term; rfl

theorem Limit.isNone_relabelOption (limit : Option Limit) :
    (Limit.relabelOption σ limit).isNone = limit.isNone := by
  cases limit with
  | none => rfl
  | some limit => obtain ⟨count, offset⟩ := limit; rfl

theorem Projected.isEmpty_relabelEach (items : List Projected) :
    (Projected.relabelEach σ items).isEmpty = items.isEmpty := by
  cases items with
  | nil => rfl
  | cons item items => obtain ⟨e, label⟩ := item; rfl

theorem JoinedTable.isEmpty_relabelEach (tables : List JoinedTable) :
    (JoinedTable.relabelEach σ tables).isEmpty = tables.isEmpty := by
  cases tables with
  | nil => rfl
  | cons table tables => obtain ⟨table, joins⟩ := table; rfl

namespace Draft

variable {d : List Draft} {parts : List (List Draft)}

theorem operand_relabel (e : Expr) : operand (e.relabel σ) d = operand e d := by
  simp only [operand, Expr.isCompound_relabel]

theorem conjunction_relabel (es : List Expr) :
    conjunction (Expr.relabelEach σ es) parts = conjunction es parts := by
  have hsplits : (Expr.relabelEach σ es).map Expr.splitsConjunction =
      es.map Expr.splitsConjunction := by
    induction es generalizing σ with
    | nil => rfl
    | cons e es ih =>
      simp only [Expr.relabelEach, List.map_cons, Expr.splitsConjunction_relabel, ih]
  simp only [conjunction, Expr.isEmpty_relabelEach, hsplits]

theorem comparison_relabel (τ : Relabeling) (op : BinaryOp) (lhs rhs : Expr) {l r : List Draft} :
    comparison op (lhs.relabel σ) (rhs.relabel τ) l r = comparison op lhs rhs l r := by
  simp only [comparison, Expr.isNullValue_relabel, operand_relabel]

theorem membership_relabel (e : Expr) :
    membership (e.relabel σ) d parts = membership e d parts := by
  simp only [membership, operand_relabel]

theorem collectionTest_relabel (s : Spelling) (style : CollectionTest) (key : Key)
    (es : List Expr) :
    collectionTest s style key (Expr.relabelEach σ es) parts =
      collectionTest s style key es parts := by
  have hoperands : List.zipWith operand (Expr.relabelEach σ es) parts =
      List.zipWith operand es parts := by
    induction es generalizing σ parts with
    | nil => rfl
    | cons e es ih =>
      cases parts with
      | nil => rfl
      | cons part parts =>
        simp only [Expr.relabelEach, List.zipWith_cons_cons, operand_relabel, ih]
  match style, es with
  | .list, [] | .disjunction, [] => rfl
  | .list, [e] =>
    match parts with
    | [] | _ :: _ :: _ => rfl
    | [part] => simp only [Expr.relabelEach, collectionTest, operand_relabel]
  | .list, e :: e' :: es =>
    simp only [Expr.relabelEach, collectionTest, List.length_cons, Expr.length_relabelEach]
  | .disjunction, e :: es =>
    simp only [Expr.relabelEach] at hoperands
    simp only [Expr.relabelEach, collectionTest, hoperands]

end Draft

theorem Assignment.isEmpty_relabelEach (assignments : List Assignment) :
    (Assignment.relabelEach σ assignments).isEmpty = assignments.isEmpty := by
  cases assignments <;> rfl

theorem Expr.isEmpty_relabelRows (rows : List (List Expr)) :
    (Expr.relabelRows σ rows).isEmpty = rows.isEmpty := by
  cases rows <;> rfl

/-- A row of the wrong width is found at the same place. -/
theorem Expr.find?_relabelRows (width : Nat) (rows : List (List Expr)) :
    ((Expr.relabelRows σ rows).find? (·.length != width)).map List.length =
      (rows.find? (·.length != width)).map List.length := by
  induction rows generalizing σ with
  | nil => rfl
  | cons row rows ih =>
    simp only [relabelRows, List.find?_cons, length_relabelEach]
    cases row.length != width with
    | false => exact ih _
    | true => simp only [Option.map_some, length_relabelEach]

theorem TableUse.label_relabel (t : TableUse) :
    (t.relabel σ).label = t.label.rename σ.objects := by
  cases t <;> rfl

theorem Join.labels_relabelEach (joins : List Join) :
    (Join.relabelEach σ joins).map (·.table.label) =
      (joins.map (·.table.label)).map (·.rename σ.objects) := by
  induction joins generalizing σ with
  | nil => rfl
  | cons join joins ih =>
    obtain ⟨kind, table, constraint⟩ := join
    simp only [relabelEach, List.map_cons, TableUse.label_relabel, ih, Relabeling.below_objects]

theorem Select.labels_relabel (select : Select) :
    (select.relabel σ).labels = select.labels.map (·.rename σ.objects) := by
  have htables (tables : List JoinedTable) (σ : Relabeling) :
      (JoinedTable.relabelEach σ tables).flatMap
          (fun t => t.table.label :: t.joins.map (·.table.label)) =
        (tables.flatMap fun t => t.table.label :: t.joins.map (·.table.label)).map
          (·.rename σ.objects) := by
    induction tables generalizing σ with
    | nil => rfl
    | cons table tables ih =>
      obtain ⟨table, joins⟩ := table
      simp only [JoinedTable.relabelEach, List.flatMap_cons, TableUse.label_relabel,
        Join.labels_relabelEach, ih, List.map_append, List.map_cons, Relabeling.below_objects]
  obtain ⟨distinct, projection, tables, filter, groupBy, having, hints⟩ := select
  exact htables tables _

theorem Select.hintsApply_relabel (select : Select) :
    (select.relabel σ).hintsApply = select.hintsApply := by
  have hhints : (select.relabel σ).hints = select.hints.map (·.rename σ.objects) := by
    obtain ⟨distinct, projection, tables, filter, groupBy, having, hints⟩ := select
    rfl
  simp only [hintsApply, labels_relabel, hhints, List.all_map, List.any_map, Function.comp_def,
    TableLabel.rename, IndexHint.rename, σ.objects.table.injective.beq_eq]

end PreparedSql
