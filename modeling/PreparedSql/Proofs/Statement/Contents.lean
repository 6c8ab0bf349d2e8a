import PreparedSql.Compiler
import PreparedSql.Proofs.Draft.Contents
import PreparedSql.Proofs.Statement.Relabeling

/-!
# The content of a string literal

Setting the contents of some string literals of a statement, and what that does to its text. All
literals at a set of places get the same content, so that one occurrence may be shared by several
parts.

The shape of a statement does not depend on contents. So its drafts are uniform in the content,
and what is compiled from them holds the content as a quoted literal between texts that do not
depend on it.
-/

namespace PreparedSql

open Draft (Uniform UniformEach UniformOption)

/-- A set of places in a tree, each given by the turns that lead to it. -/
abbrev Places := List Nat → Bool

/-- The places behind a turn. -/
def Places.below (places : Places) (turn : Nat) : Places := fun rest => places (turn :: rest)

/-- A text value gets the content, if it is picked. -/
def Value.setText (picked : Bool) (content : String) : Value → Value
  | .text s => .text (if picked then content else s)
  | v => v

/-- Setting contents as a relabelling, which keeps all objects. -/
def Places.contents (places : Places) (content : String) : Relabeling where
  value := fun place v => v.setText (places place) content
  objects := .refl
  isNull_value := fun _ v => by cases v <;> rfl

@[simp] theorem Places.below_contents (places : Places) (content : String) (turn : Nat) :
    (places.contents content).below turn = (places.below turn).contents content := rfl

/-- Sets the content of the string literals at some places. -/
def Statement.setText (places : Places) (content : String) (statement : Statement) : Statement :=
  statement.relabel (places.contents content)

@[simp] theorem Places.objects_contents (places : Places) (content : String) :
    (places.contents content).objects = .refl := rfl

@[simp] theorem Table.rename_refl (t : Table) : t.rename .refl = t := by
  obtain ⟨name, schema⟩ := t
  cases schema <;> rfl

@[simp] theorem map_rename_refl_labels (labels : List TableLabel) :
    labels.map (·.rename .refl) = labels :=
  List.map_id labels

@[simp] theorem map_rename_refl_hints (hints : List IndexHint) :
    hints.map (·.rename .refl) = hints :=
  List.map_id hints

/-! ## Drafts -/

section Drafts

variable {s : Spelling}

/-- A literal is the same for all contents, or it is the quoted content. -/
theorem Value.uniform_literal (s : Spelling) (picked : Bool) (v : Value) :
    Uniform s.dialect fun content => [Draft.literal s (v.setText picked content)] := by
  cases v with
  | text t =>
    cases picked with
    | false => exact .const [Draft.literal s (.text t)]
    | true => exact .literal .nil
  | _ =>
    simp only [setText]
    exact .const _

mutual

theorem Expr.uniform_draft : ∀ (e : Expr) (places : Places),
    Uniform s.dialect fun content => (e.relabel (places.contents content)).draft s
  | .value v, places => v.uniform_literal s (places [])
  | .column table name, _ => .const [.column table name]
  | .param p, _ => .const [.param p]
  | .inline key, _ => .const [.hole (.inline key) rfl]
  | .typeId t, _ => .const [.hole (.typeId t) rfl]
  | .and es, places => by
    simp only [Expr.relabel, Expr.draft, Draft.conjunction_relabel]
    exact .conjunction es (Expr.uniform_draftEach es places)
  | .or es, places => .disjunction (Expr.uniform_draftEach es places)
  | .not e, places => .bracket "NOT (" (e.uniform_draft places)
  | .binary op lhs rhs, places => by
    simp only [Expr.relabel, Expr.draft, Draft.comparison_relabel]
    exact .comparison op lhs rhs (lhs.uniform_draft _) (rhs.uniform_draft _)
  | .isNull negated e, places => by
    simp only [Expr.relabel, Expr.draft, Draft.operand_relabel]
    exact .append (.operand e (e.uniform_draft places)) (.const _)
  | .like negated e pattern, places => by
    simp only [Expr.relabel, Expr.draft, Draft.operand_relabel]
    exact .append (.operand e (e.uniform_draft _))
      (.same _ (.operand pattern (pattern.uniform_draft _)))
  | .inList e list, places => by
    simp only [Expr.relabel, Expr.draft, Draft.membership_relabel]
    exact .membership e (e.uniform_draft _) (Expr.uniform_draftEach list _)
  | .inQuery e q, places => by
    simp only [Expr.relabel, Expr.draft, Draft.operand_relabel]
    exact .append (.operand e (e.uniform_draft _)) (.enclosed "IN (" (q.uniform_draft _))
  | .inCollection style es key, places => by
    simp only [Expr.relabel, Expr.draft, Draft.collectionTest_relabel]
    exact .collectionTest s style key es (Expr.uniform_draftEach es places)
  | .existsRow negated q, places => .enclosed _ (q.uniform_draft places)
  | .count distinct argument filter, _ =>
    .count s distinct (Expr.uniform_draftOption argument _) (Expr.uniform_draftOption filter _)
  | .call name arguments, places =>
    .bracket _ (.commas .other (Expr.uniform_draftEach arguments places))
  | .record fields, places => .bracket "(" (.commas .other (Expr.uniform_draftEach fields places))
  | .subquery q, places => .enclosed "(" (q.uniform_draft places)
  | .choice key main alternative, _ =>
    .choice key (main.uniform_draft _) (alternative.uniform_draft _) .nil

theorem Expr.uniform_draftEach : ∀ (es : List Expr) (places : Places),
    UniformEach s.dialect fun content =>
      Expr.draftEach s (Expr.relabelEach (places.contents content) es)
  | [], _ => .nil
  | e :: es, _ => .cons (e.uniform_draft _) (Expr.uniform_draftEach es _)

theorem Expr.uniform_draftOption : ∀ (e : Option Expr) (places : Places),
    UniformOption s.dialect fun content =>
      Expr.draftOption s (Expr.relabelOption (places.contents content) e)
  | none, _ => .none
  | some e, places => .some (e.uniform_draft places)

theorem Query.uniform_draft : ∀ (q : Query) (places : Places),
    Uniform s.dialect fun content => (q.relabel (places.contents content)).draft s
  | ⟨body, orderBy, limit, _⟩, _ =>
    .append (.append (.append (body.uniform_draft _)
      (.listClause "ORDER BY" (OrderTerm.uniform_draftEach orderBy _)))
      (Limit.uniform_draftOption limit _)) (.const _)

theorem OrderTerm.uniform_draftEach : ∀ (terms : List OrderTerm) (places : Places),
    UniformEach s.dialect fun content =>
      OrderTerm.draftEach s (OrderTerm.relabelEach (places.contents content) terms)
  | [], _ => .nil
  | ⟨e, _⟩ :: terms, _ =>
    .cons (.append (e.uniform_draft _) (.const _)) (OrderTerm.uniform_draftEach terms _)

theorem Limit.uniform_draftOption : ∀ (limit : Option Limit) (places : Places),
    Uniform s.dialect fun content =>
      Limit.draftOption s (Limit.relabelOption (places.contents content) limit)
  | none, _ => .nil
  | some ⟨count, none⟩, _ => .clause (.same _ (.append (count.uniform_draft _) .nil))
  | some ⟨count, some offset⟩, _ =>
    .clause (.same _ (.append (count.uniform_draft _) (.same _ (offset.uniform_draft _))))

theorem QueryBody.uniform_draft : ∀ (body : QueryBody) (places : Places),
    Uniform s.dialect fun content => (body.relabel (places.contents content)).draft s
  | .select select, places => select.uniform_draft places
  | .setOp op operands, places => by
    simp only [QueryBody.relabel, QueryBody.draft, Query.length_relabelEach]
    split
    · exact .const _
    · exact Query.uniform_draftOperands op operands true places

theorem Query.uniform_draftOperands (op : SetOp) :
    ∀ (operands : List Query) (first : Bool) (places : Places),
      Uniform s.dialect fun content =>
        Query.draftOperands s op first (Query.relabelEach (places.contents content) operands)
  | [], _, _ => .nil
  | ⟨body, orderBy, limit, lock⟩ :: operands, first, _ => by
    simp only [Query.relabelEach, Query.relabel, Query.draftOperands,
      OrderTerm.isEmpty_relabelEach, Limit.isNone_relabelOption]
    refine .append (.ite _ ?_ (.const _)) (Query.uniform_draftOperands op operands false _)
    exact .append (.const _) (.scope .operand (body.uniform_draft _) .nil)

theorem Select.uniform_draft : ∀ (select : Select) (places : Places),
    Uniform s.dialect fun content => (select.relabel (places.contents content)).draft s
  | ⟨distinct, projection, tables, filter, groupBy, having, hints⟩, places => by
    let select : Select := ⟨distinct, projection, tables, filter, groupBy, having, hints⟩
    have hlabels content := select.labels_relabel (places.contents content)
    have hhints content := select.hintsApply_relabel (places.contents content)
    simp only [select, Select.relabel, Places.objects_contents, map_rename_refl_labels,
      map_rename_refl_hints] at hlabels hhints
    simp only [Select.relabel, Select.draft, Places.objects_contents, map_rename_refl_hints,
      hlabels, hhints, Projected.isEmpty_relabelEach, JoinedTable.isEmpty_relabelEach,
      Expr.isSome_relabelOption]
    split
    · exact .const _
    · exact .append (.append (.append (.append (.append (.const _)
        (.group (.commas .column (Projected.uniform_draftEach projection _)) .nil))
        (.ite _ (.const _) (.clause (.same _
          (.commas .other (JoinedTable.uniform_draftEach hints tables _))))))
        (.optionalClause "WHERE" (Expr.uniform_draftOption filter _)))
        (.listClause "GROUP BY" (Expr.uniform_draftEach groupBy _)))
        (.optionalClause "HAVING" (Expr.uniform_draftOption having _))

theorem Projected.uniform_draftEach : ∀ (items : List Projected) (places : Places),
    UniformEach s.dialect fun content =>
      Projected.draftEach s (Projected.relabelEach (places.contents content) items)
  | [], _ => .nil
  | ⟨e, label⟩ :: items, _ =>
    .cons (.projected s label (e.uniform_draft _)) (Projected.uniform_draftEach items _)

theorem JoinedTable.uniform_draftEach (hints : List IndexHint) :
    ∀ (tables : List JoinedTable) (places : Places),
      UniformEach s.dialect fun content =>
        JoinedTable.draftEach s hints (JoinedTable.relabelEach (places.contents content) tables)
  | [], _ => .nil
  | ⟨table, joins⟩ :: tables, _ =>
    .cons (.append (table.uniform_draft hints _) (Join.uniform_draftAll hints joins _))
      (JoinedTable.uniform_draftEach hints tables _)

theorem Join.uniform_draftAll (hints : List IndexHint) :
    ∀ (joins : List Join) (places : Places),
      Uniform s.dialect fun content =>
        Join.draftAll s hints (Join.relabelEach (places.contents content) joins)
  | [], _ => .nil
  | ⟨kind, table, constraint⟩ :: joins, _ => by
    simp only [Join.relabelEach, Join.draftAll, Expr.isSome_relabelOption]
    refine .append ?_ (Join.uniform_draftAll hints joins _)
    cases Draft.joinFault? s kind constraint.isSome with
    | some found => exact .const _
    | none =>
      refine .append (.clause (.same _ (table.uniform_draft hints _))) ?_
      cases constraint with
      | none => exact .nil
      | some e => exact .same _ (e.uniform_draft _)

theorem TableUse.uniform_draft (hints : List IndexHint) : ∀ (t : TableUse) (places : Places),
    Uniform s.dialect fun content => (t.relabel (places.contents content)).draft s hints
  | .base id table requested, places => by
    simp only [TableUse.relabel, TableUse.draft, Places.objects_contents]
    exact .const _
  | .derived id q, places => by
    simp only [TableUse.relabel, TableUse.draft, Places.objects_contents]
    exact .append (.enclosed "(" (q.uniform_draft places)) (.const _)

end

theorem Expr.uniform_rows (rows : List (List Expr)) (places : Places) :
    UniformEach s.dialect fun content =>
      (Expr.relabelRows (places.contents content) rows).map fun row =>
        Draft.parens (Draft.commas .other (Expr.draftEach s row)) := by
  induction rows generalizing places with
  | nil => exact .nil
  | cons row rows ih =>
    exact .cons (.bracket "(" (.commas .other (Expr.uniform_draftEach row _))) (ih _)

theorem InsertSource.uniform_draft (width : Nat) (source : InsertSource) (places : Places) :
    Uniform s.dialect fun content => (source.relabel (places.contents content)).draft s width := by
  cases source with
  | values rows =>
    have hrows : Uniform s.dialect fun content => Draft.clause (.text "VALUES" :: Draft.commas .row
        ((Expr.relabelRows (places.contents content) rows).map fun row =>
          Draft.parens (Draft.commas .other (Expr.draftEach s row)))) :=
      .clause (.same _ (.commas .row (Expr.uniform_rows rows places)))
    have hfind content := Expr.find?_relabelRows (places.contents content) width rows
    simp only [relabel, draft, Expr.isEmpty_relabelRows]
    refine .ite _ (.const _) ?_
    cases hrow : rows.find? (·.length != width) with
    | none =>
      have hnone content :
          (Expr.relabelRows (places.contents content) rows).find? (·.length != width) = none := by
        simpa [hrow] using hfind content
      simp only [hnone]
      exact hrows
    | some row =>
      have hsome content : ∃ found,
          (Expr.relabelRows (places.contents content) rows).find? (·.length != width) =
            some found ∧ found.length = row.length := by
        simpa [hrow] using hfind content
      choose found hfound hlength using hsome
      simp only [hfound, hlength]
      exact .const _
  | query q => exact .clause (.scope .nested (.group (q.uniform_draft places) .nil) .nil)
  | collection key => exact .const _

theorem Insert.uniform_draft (i : Insert) (places : Places) :
    Uniform s.dialect fun content => (i.relabel (places.contents content)).draft s := by
  simp only [Insert.relabel, draft, Places.objects_contents, Table.rename_refl]
  refine .ite _ (.const _) (.append (.append (.const _) ?_) (.const _))
  exact i.source.uniform_draft i.columns.length places

theorem TableUse.uniform_draftTarget {ds : String → List Draft} (target : TableUse)
    (places : Places) (h : Uniform s.dialect ds) :
    Uniform s.dialect fun content =>
      (target.relabel (places.contents content)).draftTarget (ds content) := by
  cases target with
  | base id table requested => exact .scope (.target ⟨id, some table.name, requested⟩) h .nil
  | derived id q => exact .const _

theorem Assignment.uniform_draft (assignments : List Assignment) (places : Places) :
    UniformEach s.dialect fun content =>
      (Assignment.relabelEach (places.contents content) assignments).map (·.draft s) := by
  induction assignments generalizing places with
  | nil => exact .nil
  | cons assignment assignments ih =>
    obtain ⟨column, e⟩ := assignment
    simp only [relabelEach, List.map_cons, draft]
    exact .cons (.same _ (.same _ (e.uniform_draft _))) (ih _)

theorem Statement.uniform_draft (statement : Statement) (places : Places) :
    Uniform s.dialect fun content => (statement.setText places content).draft s := by
  cases statement with
  | query q => exact q.uniform_draft places
  | insert i => exact i.uniform_draft places
  | update u =>
    simp only [setText, relabel, draft, Update.relabel, Update.draft,
      Assignment.isEmpty_relabelEach]
    refine .ite _ (.const _) (u.target.uniform_draftTarget _ ?_)
    exact .append (.append (.append (.same _ (u.target.uniform_draft [] _))
      (.listClause "SET" (Assignment.uniform_draft u.assignments _)))
      (.optionalClause "WHERE" (Expr.uniform_draftOption u.filter _)))
      (.returning s (Projected.uniform_draftEach u.returning _))
  | delete d =>
    refine d.target.uniform_draftTarget _ ?_
    exact .append (.append (.same _ (d.target.uniform_draft [] _))
      (.optionalClause "WHERE" (Expr.uniform_draftOption d.filter _)))
      (.returning s (Projected.uniform_draftEach d.returning _))

end Drafts

/-- A string literal has no influence on the text around it: whatever the content, compiling and
preparing fail in the same way, or filling the templates with the same arguments has the same
outcome but for the literal itself. -/
theorem Compiler.contained_setText (c : Compiler) (statement : Statement) (places : Places) :
    (∃ failure, ∀ content,
      c.compile (statement.setText places content) = .error failure ∧
        c.prepare (statement.setText places content) = .error failure) ∨
    ∃ raw prepared : String → Template,
      (∀ content, c.compile (statement.setText places content) = .ok (raw content) ∧
        c.prepare (statement.setText places content) = .ok (prepared content)) ∧
      ∀ a, Literal.Contained c.dialect (fun content => (raw content).fill a) ∧
        Literal.Contained c.dialect (fun content => (prepared content).fill a) := by
  have hdraft := statement.uniform_draft (s := c.spelling) places
  obtain ⟨cause, herror⟩ | ⟨fs, ns, hfs, hok⟩ := hdraft.named c.format.quote none c.names
  · refine .inl ⟨⟨cause, []⟩, fun content => ?_⟩
    have hcompile : c.compile (statement.setText places content) = .error ⟨cause, []⟩ := by
      simp only [compile, fragments, StateT.run'_eq, herror]
      rfl
    exact ⟨hcompile, prepare_of_error hcompile⟩
  · refine .inr ⟨fun content => ⟨fs content, c.format, false⟩,
      fun content => ⟨Fragment.condensed c.format.pretty (fs content), c.format, true⟩,
      fun content => ?_, fun a => ⟨?_, ?_⟩⟩
    · have hcompile : c.compile (statement.setText places content) =
          .ok ⟨fs content, c.format, false⟩ := by
        simp only [compile, fragments, StateT.run'_eq, hok]
        rfl
      exact ⟨hcompile, prepare_of_compile hcompile⟩
    · exact hfs.contained_fill c.format false a
    · exact ((hfs.condenses c.format.pretty).branch .start).contained_fill c.format true a

/-- The second of two literals is set. -/
example :
    let c : Compiler := ⟨.mysql, {}⟩
    let statement : Statement := .query (.ofBody (.select
      { Select.empty with projection := [⟨.value (.text "a"), none⟩, ⟨.value (.text "b"), none⟩] }))
    let places : Places := (· == [0, 0, 1, 0])
    (c.compile (statement.setText places "it's")).bind (·.fill {}) =
      .ok ⟨"SELECT 'a', 'it''s'", []⟩ := by
  decide +kernel

end PreparedSql
