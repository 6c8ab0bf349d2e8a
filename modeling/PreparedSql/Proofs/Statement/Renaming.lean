import PreparedSql.Compiler
import PreparedSql.Proofs.Draft.Renaming
import PreparedSql.Proofs.Template.Correspondence

/-!
# Statements up to identities

Two statements that correspond under a renaming of their objects have corresponding drafts, so they
compile to corresponding templates, with the same texts and the same values for all arguments.
-/

namespace PreparedSql

/-- Renaming as a relabelling, which keeps all values. -/
def Renaming.relabeling (ρ : Renaming) : Relabeling := ⟨fun _ v => v, ρ, fun _ _ => rfl⟩

@[simp] theorem Renaming.below_relabeling (ρ : Renaming) (turn : Nat) :
    ρ.relabeling.below turn = ρ.relabeling := rfl

@[simp] theorem Renaming.objects_relabeling (ρ : Renaming) : ρ.relabeling.objects = ρ := rfl

/-- The statement about the objects that correspond to its own. -/
def Statement.rename (ρ : Renaming) (statement : Statement) : Statement :=
  statement.relabel ρ.relabeling

section Drafts

variable (ρ : Renaming) {s : Spelling}

open Draft

theorem introduce_rename (labels : List TableLabel) :
    (labels.map (·.rename ρ)).map Draft.introduce = renameAll ρ (labels.map .introduce) := by
  induction labels with
  | nil => rfl
  | cons t labels ih => exact congrArg _ ih

mutual

theorem Expr.draft_rename :
    ∀ e : Expr, (e.relabel ρ.relabeling).draft s = renameAll ρ (e.draft s)
  | .value v => by simp [Expr.relabel, Expr.draft, Renaming.relabeling]
  | .column _ _ | .param _ | .inline _ | .typeId _ => rfl
  | .and es => by
    simp [Expr.relabel, Expr.draft, conjunction_relabel, Expr.draftEach_rename es]
  | .or es => by simp [Expr.relabel, Expr.draft, Expr.draftEach_rename es]
  | .not e => by simp [Expr.relabel, Expr.draft, e.draft_rename]
  | .binary op lhs rhs => by
    simp [Expr.relabel, Expr.draft, comparison_relabel, lhs.draft_rename, rhs.draft_rename]
  | .isNull negated e => by
    simp [Expr.relabel, Expr.draft, operand_relabel, e.draft_rename]
  | .like negated e pattern => by
    simp [Expr.relabel, Expr.draft, operand_relabel, e.draft_rename, pattern.draft_rename]
  | .inList e list => by
    simp [Expr.relabel, Expr.draft, membership_relabel, e.draft_rename, Expr.draftEach_rename list]
  | .inQuery e q => by
    simp [Expr.relabel, Expr.draft, operand_relabel, e.draft_rename, q.draft_rename]
  | .inCollection style es key => by
    simp [Expr.relabel, Expr.draft, collectionTest_relabel, Expr.draftEach_rename es]
  | .existsRow negated q => by simp [Expr.relabel, Expr.draft, q.draft_rename]
  | .count distinct argument filter => by
    simp [Expr.relabel, Expr.draft, Expr.draftOption_rename argument,
      Expr.draftOption_rename filter]
  | .call name arguments => by simp [Expr.relabel, Expr.draft, Expr.draftEach_rename arguments]
  | .record fields => by simp [Expr.relabel, Expr.draft, Expr.draftEach_rename fields]
  | .subquery q => by simp [Expr.relabel, Expr.draft, q.draft_rename]
  | .choice key main alternative => by
    simp [Expr.relabel, Expr.draft, Draft.rename, main.draft_rename, alternative.draft_rename]

theorem Expr.draftEach_rename : ∀ es : List Expr,
    Expr.draftEach s (Expr.relabelEach ρ.relabeling es) = (Expr.draftEach s es).map (renameAll ρ)
  | [] => rfl
  | e :: es => by simp [Expr.relabelEach, Expr.draftEach, e.draft_rename, Expr.draftEach_rename es]

theorem Expr.draftOption_rename : ∀ e : Option Expr,
    Expr.draftOption s (Expr.relabelOption ρ.relabeling e) =
      (Expr.draftOption s e).map (renameAll ρ)
  | none => rfl
  | some e => by simp [Expr.relabelOption, Expr.draftOption, e.draft_rename]

theorem Query.draft_rename :
    ∀ q : Query, (q.relabel ρ.relabeling).draft s = renameAll ρ (q.draft s)
  | ⟨body, orderBy, limit, lock⟩ => by
    simp [Query.relabel, Query.draft, body.draft_rename, OrderTerm.draftEach_rename orderBy,
      Limit.draftOption_rename limit]

theorem OrderTerm.draftEach_rename : ∀ terms : List OrderTerm,
    OrderTerm.draftEach s (OrderTerm.relabelEach ρ.relabeling terms) =
      (OrderTerm.draftEach s terms).map (renameAll ρ)
  | [] => rfl
  | ⟨e, direction⟩ :: terms => by
    cases direction <;>
      simp [OrderTerm.relabelEach, OrderTerm.draftEach, e.draft_rename,
        OrderTerm.draftEach_rename terms]

theorem Limit.draftOption_rename : ∀ limit : Option Limit,
    Limit.draftOption s (Limit.relabelOption ρ.relabeling limit) =
      renameAll ρ (Limit.draftOption s limit)
  | none => rfl
  | some ⟨count, none⟩ => by
    simp [Limit.relabelOption, Limit.draftOption, Expr.relabelOption, Expr.draftOption,
      count.draft_rename]
  | some ⟨count, some offset⟩ => by
    simp [Limit.relabelOption, Limit.draftOption, Expr.relabelOption, Expr.draftOption,
      count.draft_rename, offset.draft_rename]

theorem QueryBody.draft_rename :
    ∀ body : QueryBody, (body.relabel ρ.relabeling).draft s = renameAll ρ (body.draft s)
  | .select select => select.draft_rename
  | .setOp op operands => by
    simp only [QueryBody.relabel, QueryBody.draft, Query.length_relabelEach]
    split
    · rfl
    · exact Query.draftOperands_rename op operands true

theorem Query.draftOperands_rename (op : SetOp) : ∀ (operands : List Query) (first : Bool),
    Query.draftOperands s op first (Query.relabelEach ρ.relabeling operands) =
      renameAll ρ (Query.draftOperands s op first operands)
  | [], _ => rfl
  | ⟨body, orderBy, limit, lock⟩ :: operands, first => by
    simp only [Query.relabelEach, Query.relabel, Query.draftOperands,
      OrderTerm.isEmpty_relabelEach, Limit.isNone_relabelOption, Renaming.below_relabeling,
      body.draft_rename, Query.draftOperands_rename op operands false, renameAll_append,
      renameAll_ite]
    rfl

theorem Select.draft_rename :
    ∀ select : Select, (select.relabel ρ.relabeling).draft s = renameAll ρ (select.draft s)
  | ⟨distinct, projection, tables, filter, groupBy, having, hints⟩ => by
    let select : Select := ⟨distinct, projection, tables, filter, groupBy, having, hints⟩
    have hlabels := select.labels_relabel ρ.relabeling
    have hhints := select.hintsApply_relabel ρ.relabeling
    simp only [select, Select.relabel, Renaming.below_relabeling, Renaming.objects_relabeling]
      at hlabels hhints
    simp only [Select.relabel, Select.draft, Renaming.below_relabeling,
      Renaming.objects_relabeling, hlabels, hhints, Projected.isEmpty_relabelEach,
      JoinedTable.isEmpty_relabelEach, Expr.isSome_relabelOption, renameAll_ite, renameAll_append,
      introduce_rename, Projected.draftEach_rename projection,
      JoinedTable.draftEach_rename hints tables, Expr.draftOption_rename filter,
      Expr.draftEach_rename groupBy, Expr.draftOption_rename having, renameAll_optionalClause,
      renameAll_listClause, renameAll_clause, renameAll_cons, renameAll_commas,
      renameAll_nil, Draft.rename]
    rfl

theorem Projected.draftEach_rename : ∀ items : List Projected,
    Projected.draftEach s (Projected.relabelEach ρ.relabeling items) =
      (Projected.draftEach s items).map (renameAll ρ)
  | [] => rfl
  | ⟨e, label⟩ :: items => by
    simp [Projected.relabelEach, Projected.draftEach, e.draft_rename,
      Projected.draftEach_rename items]

theorem JoinedTable.draftEach_rename (hints : List IndexHint) : ∀ tables : List JoinedTable,
    JoinedTable.draftEach s (hints.map (·.rename ρ))
        (JoinedTable.relabelEach ρ.relabeling tables) =
      (JoinedTable.draftEach s hints tables).map (renameAll ρ)
  | [] => rfl
  | ⟨table, joins⟩ :: tables => by
    simp [JoinedTable.relabelEach, JoinedTable.draftEach, table.draft_rename,
      Join.draftAll_rename hints joins, JoinedTable.draftEach_rename hints tables]

theorem Join.draftAll_rename (hints : List IndexHint) : ∀ joins : List Join,
    Join.draftAll s (hints.map (·.rename ρ)) (Join.relabelEach ρ.relabeling joins) =
      renameAll ρ (Join.draftAll s hints joins)
  | [] => rfl
  | ⟨kind, table, constraint⟩ :: joins => by
    simp only [Join.relabelEach, Join.draftAll, Expr.isSome_relabelOption, renameAll_append,
      Renaming.below_relabeling, Join.draftAll_rename hints joins, table.draft_rename,
      Expr.draftOption_rename constraint]
    congr 1
    cases hfault : joinFault? s kind constraint.isSome with
    | some found =>
      obtain ⟨cause, rfl⟩ := exists_of_joinFault? hfault
      rfl
    | none => cases Expr.draftOption s constraint <;> simp

theorem TableUse.draft_rename (hints : List IndexHint) : ∀ t : TableUse,
    (t.relabel ρ.relabeling).draft s (hints.map (·.rename ρ)) = renameAll ρ (t.draft s hints)
  | .base id table requested => by
    simp [TableUse.relabel, TableUse.draft, qualifiedName_rename, hintsOn_rename, Draft.rename]
    rfl
  | .derived id q => by
    simp [TableUse.relabel, TableUse.draft, hintsOn_rename, q.draft_rename, Draft.rename]
    rfl

end

theorem InsertSource.draft_rename (width : Nat) (source : InsertSource) :
    (source.relabel ρ.relabeling).draft s width = renameAll ρ (source.draft s width) := by
  cases source with
  | values rows =>
    have hrows (rows : List (List Expr)) :
        (Expr.relabelRows ρ.relabeling rows).map
            (fun row => parens (commas .other (Expr.draftEach s row))) =
          (rows.map fun row => parens (commas .other (Expr.draftEach s row))).map
            (renameAll ρ) := by
      induction rows with
      | nil => rfl
      | cons row rows ih => simp [Expr.relabelRows, Expr.draftEach_rename, ih]
    have hfind := Expr.find?_relabelRows ρ.relabeling width rows
    simp only [relabel, draft, Expr.isEmpty_relabelRows, hrows, renameAll_ite]
    congr 1
    cases hrow : rows.find? (·.length != width) with
    | none =>
      rw [hrow, Option.map_none, Option.map_eq_none_iff] at hfind
      simp [hfind]
    | some row =>
      rw [hrow, Option.map_some, Option.map_eq_some_iff] at hfind
      obtain ⟨found, hfound, hlength⟩ := hfind
      simp only [hfound, hlength]
      rfl
  | query q => simp [relabel, draft, nested, Draft.rename, ScopeKind.rename, Query.draft_rename]
  | collection key =>
    have hcells : ((List.range width).map fun index => [Draft.cell index]).map (renameAll ρ) =
        (List.range width).map fun index => [Draft.cell index] := by
      simp [Draft.rename]
    simp [relabel, draft, Draft.rename, hcells]

theorem renameAll_idents (names : List String) :
    (names.map fun name => [ident s name]).map (renameAll ρ) =
      names.map fun name => [ident s name] := by
  simp

theorem Insert.draft_rename (i : Insert) :
    (i.relabel ρ.relabeling).draft s = renameAll ρ (i.draft s) := by
  simp only [Insert.relabel, Insert.draft, renameAll_ite, renameAll_append, renameAll_cons,
    rename_text, renameAll_parens, renameAll_commas, renameAll_idents, renameAll_returning,
    InsertSource.draft_rename, qualifiedName_rename, Renaming.objects_relabeling]
  rfl

theorem TableUse.draftTarget_rename (target : TableUse) (ds : List Draft) :
    (target.relabel ρ.relabeling).draftTarget (renameAll ρ ds) =
      renameAll ρ (target.draftTarget ds) := by
  cases target <;> rfl

theorem Assignment.draft_rename (assignments : List Assignment) :
    (Assignment.relabelEach ρ.relabeling assignments).map (·.draft s) =
      (assignments.map (·.draft s)).map (renameAll ρ) := by
  induction assignments with
  | nil => rfl
  | cons assignment assignments ih =>
    obtain ⟨column, e⟩ := assignment
    simp only [relabelEach, List.map_cons, Renaming.below_relabeling, ih]
    simp [draft, Expr.draft_rename]

/-- Corresponding statements have corresponding drafts. -/
theorem Statement.draft_rename (statement : Statement) :
    (statement.rename ρ).draft s = renameAll ρ (statement.draft s) := by
  cases statement with
  | query q => exact q.draft_rename ρ
  | insert i => exact i.draft_rename ρ
  | update u =>
    have htarget := u.target.draft_rename ρ (s := s) []
    simp only [List.map_nil] at htarget
    simp only [rename, relabel, draft, Update.relabel, Update.draft, Renaming.below_relabeling,
      Assignment.isEmpty_relabelEach, Assignment.draft_rename, Expr.draftOption_rename,
      Projected.draftEach_rename, htarget, renameAll_ite, ← TableUse.draftTarget_rename,
      renameAll_append, renameAll_cons, rename_text, renameAll_listClause,
      renameAll_optionalClause, renameAll_returning]
    rfl
  | delete d =>
    have htarget := d.target.draft_rename ρ (s := s) []
    simp only [List.map_nil] at htarget
    simp only [rename, relabel, draft, Delete.relabel, Delete.draft, Renaming.below_relabeling,
      Expr.draftOption_rename, Projected.draftEach_rename, htarget,
      ← TableUse.draftTarget_rename, renameAll_append, renameAll_cons, rename_text,
      renameAll_optionalClause, renameAll_returning]

end Drafts

/-- Two results that an execution cannot tell apart when its arguments are moved along: the same
failure, or templates with the same outcome for all arguments. -/
def Template.Alike (ρ : Renaming) : Except Failure Template → Except Failure Template → Prop
  | .error failure, .error failure' => failure' = failure
  | .ok t, .ok t' => ∀ a, t'.fill (a.along ρ) = t.fill a
  | _, _ => False

namespace Compiler

variable (c : Compiler) (statement : Statement) (ρ : Renaming)

theorem compile_rename :
    c.compile (statement.rename ρ) = (c.compile statement).map (Template.rename ρ) := by
  have htakes (reserved : List String) (ns : Names) :
      (reserved.foldl Names.take ns).rename ρ = reserved.foldl Names.take (ns.rename ρ) := by
    induction reserved generalizing ns with
    | nil => rfl
    | cons name reserved ih => rw [List.foldl_cons, List.foldl_cons, ih, Names.take_rename]
  have hnames : c.names.rename ρ = c.names := htakes c.options.reserved _
  have hrun := Draft.run_renameAll ρ (q := c.format.quote) (statement.draft c.spelling) none c.names
  rw [hnames, Option.map_none, ← Statement.draft_rename] at hrun
  simp only [compile, fragments, StateT.run'_eq, hrun]
  cases (Draft.resolveAll c.format.quote none (statement.draft c.spelling)).run c.names <;> rfl

theorem prepare_rename :
    c.prepare (statement.rename ρ) = (c.prepare statement).map (Template.rename ρ) := by
  simp only [prepare, compile_rename]
  cases c.compile statement with
  | error failure => rfl
  | ok t => exact congrArg Except.ok (Template.condense_rename ρ t)

/-- The text of a statement does not depend on the identities of its objects. Any correspondence
of finitely many objects is part of a renaming, and a renamed statement fails to compile in the
same way or has the same outcome for arguments that are moved along. -/
theorem fill_rename :
    (∀ κ : Correspondence, ∃ ρ : Renaming, ρ.Extends κ) ∧
      ∀ ρ : Renaming, Template.Alike ρ (c.compile statement) (c.compile (statement.rename ρ)) ∧
        Template.Alike ρ (c.prepare statement) (c.prepare (statement.rename ρ)) := by
  refine ⟨Correspondence.exists_extends, fun ρ => ?_⟩
  have halike (result : Except Failure Template) :
      Template.Alike ρ result (result.map (Template.rename ρ)) := by
    cases result with
    | error failure => rfl
    | ok t =>
      intro a
      simp only [Template.fill, Template.fillInto_rename]
  exact ⟨compile_rename c statement ρ ▸ halike _, prepare_rename c statement ρ ▸ halike _⟩

end Compiler

end PreparedSql
