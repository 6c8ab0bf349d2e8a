import PreparedSql.Proofs.Draft.Wording

/-!
# What holds of all drafts of statements

A property of drafts that is closed under all the ways in which statements are written holds of
the draft of every statement. What is open until an execution counts as written too: holes for
values, cells, and repetitions with one of the few texts between their rows.

The property may depend on the names of the functions that a statement calls, and it comes with a
stronger one of what stands by itself, which all expressions have.
-/

namespace PreparedSql

/-! ## The functions that a statement calls -/

mutual

def Expr.functions : Expr → List String
  | .value _ | .column _ _ | .param _ | .inline _ | .typeId _ => []
  | .and es | .or es | .record es | .inCollection _ es _ => Expr.functionsEach es
  | .not e | .isNull _ e => e.functions
  | .binary _ e e' | .like _ e e' | .choice _ e e' => e.functions ++ e'.functions
  | .inList e list => e.functions ++ Expr.functionsEach list
  | .inQuery e q => e.functions ++ q.functions
  | .existsRow _ q | .subquery q => q.functions
  | .count _ argument filter => Expr.functionsOption argument ++ Expr.functionsOption filter
  | .call name arguments => name :: Expr.functionsEach arguments

def Expr.functionsEach : List Expr → List String
  | [] => []
  | e :: es => e.functions ++ Expr.functionsEach es

def Expr.functionsOption : Option Expr → List String
  | none => []
  | some e => e.functions

def Query.functions : Query → List String
  | ⟨body, orderBy, limit, _⟩ =>
    body.functions ++ OrderTerm.functionsEach orderBy ++ Limit.functionsOption limit

def OrderTerm.functionsEach : List OrderTerm → List String
  | [] => []
  | ⟨e, _⟩ :: terms => e.functions ++ OrderTerm.functionsEach terms

def Limit.functionsOption : Option Limit → List String
  | none => []
  | some ⟨count, offset⟩ => count.functions ++ Expr.functionsOption offset

def QueryBody.functions : QueryBody → List String
  | .select select => select.functions
  | .setOp _ operands => Query.functionsEach operands

def Query.functionsEach : List Query → List String
  | [] => []
  | ⟨body, orderBy, limit, _⟩ :: queries =>
    body.functions ++ OrderTerm.functionsEach orderBy ++ Limit.functionsOption limit ++
      Query.functionsEach queries

def Select.functions : Select → List String
  | ⟨_, projection, tables, filter, groupBy, having, _⟩ =>
    Projected.functionsEach projection ++ JoinedTable.functionsEach tables ++
      Expr.functionsOption filter ++ Expr.functionsEach groupBy ++ Expr.functionsOption having

def Projected.functionsEach : List Projected → List String
  | [] => []
  | ⟨e, _⟩ :: items => e.functions ++ Projected.functionsEach items

def JoinedTable.functionsEach : List JoinedTable → List String
  | [] => []
  | ⟨table, joins⟩ :: tables =>
    table.functions ++ Join.functionsEach joins ++ JoinedTable.functionsEach tables

def Join.functionsEach : List Join → List String
  | [] => []
  | ⟨_, table, constraint⟩ :: joins =>
    table.functions ++ Expr.functionsOption constraint ++ Join.functionsEach joins

def TableUse.functions : TableUse → List String
  | .base _ _ _ => []
  | .derived _ q => q.functions

end

def InsertSource.functions : InsertSource → List String
  | .values rows => rows.flatMap Expr.functionsEach
  | .query q => q.functions
  | .collection _ => []

/-- The names of the functions that are called anywhere in a statement. -/
def Statement.functions : Statement → List String
  | .query q => q.functions
  | .insert i => i.source.functions
  | .update u =>
    u.target.functions ++ u.assignments.flatMap (·.expr.functions) ++
      Expr.functionsOption u.filter ++ Projected.functionsEach u.returning
  | .delete d =>
    d.target.functions ++ Expr.functionsOption d.filter ++ Projected.functionsEach d.returning

/-! ## Closed properties -/

namespace Draft

/-- What stands between two rows of a repetition. -/
def separators : List String := [", ", " OR ", " UNION ALL "]

/-- Properties that are closed under the ways in which statements are written. -/
structure Pervasive (s : Spelling) (P : String → Prop) (S T : List Draft → Prop) : Prop
    extends Worded s P S T where
  hole : ∀ h unnamed, T [.hole h unnamed]
  param : ∀ p, T [.param p]
  cell : ∀ index, T [.cell index]
  each : ∀ {key body empty between}, between ∈ separators → (∃ index, .cell index ∈ body) →
    T body → T empty → T [.each key body empty between]

variable {s : Spelling} {P : String → Prop} {S T : List Draft → Prop} {parts : List (List Draft)}

theorem Pervasive.collectionTest (hS : Pervasive s P S T) (style : CollectionTest) (key : Key)
    {es : List Expr} (hlength : parts.length = es.length) (h : ∀ part ∈ parts, T part) :
    T (collectionTest s style key es parts) := by
  unfold Draft.collectionTest
  split
  · next e d =>
    have hempty : T (.text "SELECT NULL" :: noRows s) := hS.lead (.word (by decide)) hS.noRows
    have heach : S [.each key [.cell 0] (.text "SELECT NULL" :: noRows s) ", "] :=
      hS.weaken (hS.each (by decide) ⟨0, List.mem_singleton_self _⟩ (hS.cell 0) hempty)
    exact hS.concat (hS.operand e (h d (List.mem_singleton_self d)))
      (hS.bracket (.word (by decide)) heach)
  · exact hS.fault _
  · exact hS.fault _
  · next hne =>
    refine hS.each (by decide) ⟨0, ?_⟩ (hS.words (.word (by decide)) fun part hpart => ?_)
      (hS.text (.word (by decide)))
    · have hfirst : 0 < (List.zipWith operand es parts).length := by
        rw [List.length_zipWith, hlength, Nat.min_self]
        exact List.length_pos_iff.2 hne
      exact mem_intercalate_of_mem (List.mem_mapIdx.2 ⟨0, hfirst, rfl⟩) (by simp)
    · obtain ⟨index, hindex, rfl⟩ := List.getElem_of_mem hpart
      rw [List.getElem_mapIdx, List.getElem_zipWith]
      exact hS.concat (hS.operand _ (h _ (List.getElem_mem _)))
        (hS.lead (.word (by decide)) (hS.weaken (hS.cell index)))

theorem Pervasive.idents (hS : Pervasive s P S T) (names : List String) :
    ∀ part ∈ names.map fun name => [ident s name], S part := by
  intro part hpart
  obtain ⟨name, -, rfl⟩ := List.mem_map.1 hpart
  exact hS.ident name

end Draft

open Draft

/-! ## Statements -/

section Statements

variable {s : Spelling} {P : String → Prop} {S T : List Draft → Prop}

mutual

theorem Expr.pervasive_draft (hS : Pervasive s P S T) :
    ∀ e : Expr, (∀ name ∈ e.functions, P name) → T (e.draft s)
  | .value v, _ => hS.literal v
  | .column t name, _ => hS.column t name
  | .param p, _ => hS.param p
  | .inline key, _ => hS.hole (.inline key) rfl
  | .typeId t, _ => hS.hole (.typeId t) rfl
  | .and es, h => hS.conjunction es (Expr.pervasive_draftEach hS es h)
  | .or es, h => hS.disjunction (Expr.pervasive_draftEach hS es h)
  | .not e, h => hS.bracket (.word (by decide)) (hS.weaken (e.pervasive_draft hS h))
  | .binary op lhs rhs, h =>
    have h := List.forall_mem_append.1 h
    hS.comparison op lhs rhs (lhs.pervasive_draft hS h.1) (rhs.pervasive_draft hS h.2)
  | .isNull negated e, h =>
    hS.concat (hS.operand e (e.pervasive_draft hS h))
      (hS.text (.word (by cases negated <;> decide)))
  | .like negated e pattern, h =>
    have h := List.forall_mem_append.1 h
    hS.concat (hS.operand e (e.pervasive_draft hS h.1))
      (hS.lead (.word (by cases negated <;> decide))
        (hS.weaken (hS.operand pattern (pattern.pervasive_draft hS h.2))))
  | .inList e list, h =>
    have h := List.forall_mem_append.1 h
    hS.membership e (e.pervasive_draft hS h.1)
      (hS.weaken_each (Expr.pervasive_draftEach hS list h.2))
  | .inQuery e q, h =>
    have h := List.forall_mem_append.1 h
    hS.concat (hS.operand e (e.pervasive_draft hS h.1))
      (hS.enclosed (.word (by decide)) (q.pervasive_draft hS h.2))
  | .inCollection style es key, h =>
    hS.collectionTest style key (by simp [Expr.draftEach_eq_map])
      (Expr.pervasive_draftEach hS es h)
  | .existsRow negated q, h =>
    hS.enclosed (.word (by cases negated <;> decide)) (q.pervasive_draft hS h)
  | .count distinct argument filter, h =>
    have h := List.forall_mem_append.1 h
    hS.count distinct (Expr.pervasive_draftOption hS argument h.1)
      (Expr.pervasive_draftOption hS filter h.2)
  | .call name arguments, h =>
    have h := List.forall_mem_cons.1 h
    hS.bracket (.call h.1)
      (hS.commas .other (hS.weaken_each (Expr.pervasive_draftEach hS arguments h.2)))
  | .record fields, h =>
    hS.parens (hS.commas .other (hS.weaken_each (Expr.pervasive_draftEach hS fields h)))
  | .subquery q, h => hS.enclosed (.word (by decide)) (q.pervasive_draft hS h)
  | .choice _ main alternative, h =>
    have h := List.forall_mem_append.1 h
    hS.choice (main.pervasive_draft hS h.1) (alternative.pervasive_draft hS h.2)

theorem Expr.pervasive_draftEach (hS : Pervasive s P S T) :
    ∀ es : List Expr, (∀ name ∈ Expr.functionsEach es, P name) →
      ∀ part ∈ Expr.draftEach s es, T part
  | [], _ => by simp [Expr.draftEach]
  | e :: es, h =>
    have h := List.forall_mem_append.1 h
    List.forall_mem_cons.2 ⟨e.pervasive_draft hS h.1, Expr.pervasive_draftEach hS es h.2⟩

theorem Expr.pervasive_draftOption (hS : Pervasive s P S T) :
    ∀ e : Option Expr, (∀ name ∈ Expr.functionsOption e, P name) →
      ∀ part ∈ Expr.draftOption s e, S part
  | none, _ => by simp [Expr.draftOption]
  | some e, h => by
    rintro _ ⟨⟩
    exact hS.weaken (e.pervasive_draft hS h)

theorem Query.pervasive_draft (hS : Pervasive s P S T) :
    ∀ q : Query, (∀ name ∈ q.functions, P name) → S (q.draft s)
  | ⟨body, orderBy, limit, lock⟩, h => by
    obtain ⟨h, hlimit⟩ := List.forall_mem_append.1 h
    obtain ⟨hbody, horder⟩ := List.forall_mem_append.1 h
    rw [Query.draft]
    repeat' refine hS.append ?_ ?_
    · exact body.pervasive_draft hS hbody
    · exact hS.listClause (.word (by decide)) (OrderTerm.pervasive_draftEach hS orderBy horder)
    · exact Limit.pervasive_draftOption hS limit hlimit
    · exact hS.lock lock

theorem OrderTerm.pervasive_draftEach (hS : Pervasive s P S T) :
    ∀ terms : List OrderTerm, (∀ name ∈ OrderTerm.functionsEach terms, P name) →
      ∀ part ∈ OrderTerm.draftEach s terms, S part
  | [], _ => by simp [OrderTerm.draftEach]
  | ⟨e, direction⟩ :: terms, h => by
    obtain ⟨he, hterms⟩ := List.forall_mem_append.1 h
    refine List.forall_mem_cons.2 ⟨hS.append (hS.weaken (e.pervasive_draft hS he)) ?_,
      OrderTerm.pervasive_draftEach hS terms hterms⟩
    cases direction with
    | none => exact hS.empty
    | some d => exact hS.cons_text (.word (by cases d <;> decide)) hS.empty

theorem Limit.pervasive_draftOption (hS : Pervasive s P S T) :
    ∀ limit : Option Limit, (∀ name ∈ Limit.functionsOption limit, P name) →
      S (Limit.draftOption s limit)
  | none, _ => hS.empty
  | some ⟨count, offset⟩, h => by
    obtain ⟨hcount, hoffset⟩ := List.forall_mem_append.1 h
    refine hS.clause (hS.cons_text (.word (by decide))
      (hS.append (hS.weaken (count.pervasive_draft hS hcount)) ?_))
    split
    · exact hS.empty
    · next d hd =>
      exact hS.cons_text (.word (by decide)) (Expr.pervasive_draftOption hS offset hoffset d hd)

theorem QueryBody.pervasive_draft (hS : Pervasive s P S T) :
    ∀ body : QueryBody, (∀ name ∈ body.functions, P name) → S (body.draft s)
  | .select select, h => select.pervasive_draft hS h
  | .setOp op operands, h => by
    rw [QueryBody.draft]
    split
    · exact hS.refuse _
    · exact Query.pervasive_draftOperands hS op true operands h

theorem Query.pervasive_draftOperands (hS : Pervasive s P S T) (op : SetOp) :
    ∀ (first : Bool) (operands : List Query), (∀ name ∈ Query.functionsEach operands, P name) →
      S (Query.draftOperands s op first operands)
  | _, [], _ => hS.empty
  | first, ⟨body, orderBy, limit, lock⟩ :: operands, h => by
    obtain ⟨h, hoperands⟩ := List.forall_mem_append.1 h
    obtain ⟨h, -⟩ := List.forall_mem_append.1 h
    obtain ⟨hbody, -⟩ := List.forall_mem_append.1 h
    refine hS.append (of_ite _ (hS.append (of_ite _ hS.empty ?_) ?_) (hS.refuse _))
      (Query.pervasive_draftOperands hS op false operands hoperands)
    · exact hS.clause (hS.cons_text (.word (by cases op <;> decide)) (hS.clause hS.empty))
    · exact hS.scope (body.pervasive_draft hS hbody)

theorem Select.pervasive_draft (hS : Pervasive s P S T) :
    ∀ select : Select, (∀ name ∈ select.functions, P name) → S (select.draft s)
  | ⟨distinct, projection, tables, filter, groupBy, having, hints⟩, h => by
    obtain ⟨h, hhaving⟩ := List.forall_mem_append.1 h
    obtain ⟨h, hgroup⟩ := List.forall_mem_append.1 h
    obtain ⟨h, hfilter⟩ := List.forall_mem_append.1 h
    obtain ⟨hprojection, htables⟩ := List.forall_mem_append.1 h
    have hintroduce (labels : List TableLabel) : S (labels.map .introduce) := by
      refine hS.of_each fun d hd => ?_
      obtain ⟨t, -, rfl⟩ := List.mem_map.1 hd
      exact hS.introduce t
    have hfrom := hS.commas .other (JoinedTable.pervasive_draftEach hS hints tables htables)
    have hcolumns := hS.commas .column (Projected.pervasive_draftEach hS projection hprojection)
    rw [Select.draft]
    refine of_ite _ (hS.refuse _) ?_
    repeat' refine hS.append ?_ ?_
    · exact hintroduce _
    · exact of_ite _ hS.empty (hS.refuse _)
    · exact hS.cons_text (.word (by decide)) hS.empty
    · exact of_ite _ (hS.cons_text (.word (by decide)) hS.empty) hS.empty
    · exact hS.group hcolumns
    · exact of_ite _
        (of_ite _ (hS.clause (hS.cons_text (.word (by decide)) hS.empty)) hS.empty)
        (hS.clause (hS.cons_text (.word (by decide)) hfrom))
    · exact hS.optionalClause (.word (by decide)) (Expr.pervasive_draftOption hS filter hfilter)
    · exact hS.listClause (.word (by decide))
        (hS.weaken_each (Expr.pervasive_draftEach hS groupBy hgroup))
    · exact hS.optionalClause (.word (by decide)) (Expr.pervasive_draftOption hS having hhaving)

theorem Projected.pervasive_draftEach (hS : Pervasive s P S T) :
    ∀ items : List Projected, (∀ name ∈ Projected.functionsEach items, P name) →
      ∀ part ∈ Projected.draftEach s items, S part
  | [], _ => by simp [Projected.draftEach]
  | ⟨e, label⟩ :: items, h =>
    have h := List.forall_mem_append.1 h
    List.forall_mem_cons.2 ⟨hS.projected label (hS.weaken (e.pervasive_draft hS h.1)),
      Projected.pervasive_draftEach hS items h.2⟩

theorem JoinedTable.pervasive_draftEach (hS : Pervasive s P S T) (hints : List IndexHint) :
    ∀ tables : List JoinedTable, (∀ name ∈ JoinedTable.functionsEach tables, P name) →
      ∀ part ∈ JoinedTable.draftEach s hints tables, S part
  | [], _ => by simp [JoinedTable.draftEach]
  | ⟨table, joins⟩ :: tables, h => by
    obtain ⟨h, htables⟩ := List.forall_mem_append.1 h
    obtain ⟨htable, hjoins⟩ := List.forall_mem_append.1 h
    refine List.forall_mem_cons.2
      ⟨?_, JoinedTable.pervasive_draftEach hS hints tables htables⟩
    exact hS.append (table.pervasive_draft hS hints htable)
      (Join.pervasive_draftAll hS hints joins hjoins)

theorem Join.pervasive_draftAll (hS : Pervasive s P S T) (hints : List IndexHint) :
    ∀ joins : List Join, (∀ name ∈ Join.functionsEach joins, P name) →
      S (Join.draftAll s hints joins)
  | [], _ => hS.empty
  | ⟨kind, table, constraint⟩ :: joins, h => by
    obtain ⟨h, hjoins⟩ := List.forall_mem_append.1 h
    obtain ⟨htable, hconstraint⟩ := List.forall_mem_append.1 h
    refine hS.append (hS.join (hS.append ?_ ?_)) (Join.pervasive_draftAll hS hints joins hjoins)
    · exact hS.clause (hS.cons_text (.word (by cases kind <;> decide))
        (table.pervasive_draft hS hints htable))
    · split
      · exact hS.empty
      · next d hd =>
        exact hS.cons_text (.word (by decide))
          (Expr.pervasive_draftOption hS constraint hconstraint d hd)

theorem TableUse.pervasive_draft (hS : Pervasive s P S T) (hints : List IndexHint) :
    ∀ table : TableUse, (∀ name ∈ table.functions, P name) → S (table.draft s hints)
  | .base id table _, _ =>
    hS.append (hS.qualifiedName table) (hS.cons (hS.tableName _) (hS.hintsOn false hints id))
  | .derived id q, h =>
    hS.append (hS.weaken (hS.enclosed (.word (by decide)) (q.pervasive_draft hS h)))
      (hS.cons (hS.tableName _) (hS.hintsOn true hints id))

end

theorem InsertSource.pervasive_draft (hS : Pervasive s P S T) {width : Nat} (hwidth : width ≠ 0)
    (source : InsertSource) (h : ∀ name ∈ source.functions, P name) :
    S (source.draft s width) := by
  cases source with
  | values rows =>
    simp only [InsertSource.draft]
    refine of_ite _ (hS.refuse _) ?_
    split
    · exact hS.refuse _
    · refine hS.clause (hS.cons_text (.word (by decide)) (hS.commas .row fun part hpart => ?_))
      obtain ⟨es, hes, rfl⟩ := List.mem_map.1 hpart
      have hrow : ∀ name ∈ Expr.functionsEach es, P name := fun name hname =>
        h name (List.mem_flatMap.2 ⟨es, hes, hname⟩)
      exact hS.weaken (hS.parens (hS.commas .other
        (hS.weaken_each (Expr.pervasive_draftEach hS es hrow))))
  | query q => exact hS.clause (hS.scope (hS.group (q.pervasive_draft hS h)))
  | collection key =>
    refine hS.clause (hS.weaken (hS.each (by decide) ⟨0, ?_⟩ ?_ ?_))
    · have hfirst : [Draft.cell 0] ∈ (List.range width).map fun index => [Draft.cell index] :=
        List.mem_map.2 ⟨0, List.mem_range.2 (Nat.pos_of_ne_zero hwidth), rfl⟩
      exact List.mem_cons_of_mem _ (mem_intercalate_of_mem hfirst (List.mem_singleton_self _))
    · refine hS.lead (.word (by decide)) (hS.commas .other fun part hpart => ?_)
      obtain ⟨index, -, rfl⟩ := List.mem_map.1 hpart
      exact hS.weaken (hS.cell index)
    · refine hS.lead (.word (by decide)) (hS.append (hS.commas .other fun part hpart => ?_)
        hS.noRows)
      rw [List.eq_of_mem_replicate hpart]
      exact hS.cons_text (.word (by decide)) hS.empty

theorem TableUse.pervasive_draftTarget (hS : Pervasive s P S T) (target : TableUse)
    {ds : List Draft} (h : S ds) : S (target.draftTarget ds) := by
  cases target with
  | base id table requested => exact hS.scope h
  | derived id q => exact hS.refuse _

/-- A property that is closed under the ways in which statements are written holds of the draft of
every statement. -/
theorem Statement.pervasive_draft (hS : Pervasive s P S T) (statement : Statement)
    (h : ∀ name ∈ statement.functions, P name) : S (statement.draft s) := by
  cases statement with
  | query q => exact q.pervasive_draft hS h
  | insert i =>
    have hcolumns := hS.weaken (hS.parens (hS.commas .other (hS.idents i.columns)))
    change S (Insert.draft s i)
    unfold Insert.draft
    split
    · exact hS.refuse _
    · next hsome =>
      have hwidth : i.columns.length ≠ 0 := by simpa using hsome
      refine hS.append (hS.append (hS.append ?_ hcolumns) ?_) ?_
      · exact hS.cons_text (.word (by decide)) (hS.qualifiedName i.table)
      · exact i.source.pervasive_draft hS hwidth h
      · exact hS.returning (hS.idents i.returning)
  | update u =>
    obtain ⟨h, hreturning⟩ := List.forall_mem_append.1 h
    obtain ⟨h, hfilter⟩ := List.forall_mem_append.1 h
    obtain ⟨htarget, hassignments⟩ := List.forall_mem_append.1 h
    refine of_ite _ (hS.refuse _) (u.target.pervasive_draftTarget hS ?_)
    repeat' refine hS.append ?_ ?_
    · exact hS.cons_text (.word (by decide)) (u.target.pervasive_draft hS [] htarget)
    · refine hS.listClause (.word (by decide)) fun part hpart => ?_
      obtain ⟨assignment, hin, rfl⟩ := List.mem_map.1 hpart
      have hexpr : ∀ name ∈ assignment.expr.functions, P name := fun name hname =>
        hassignments name (List.mem_flatMap.2 ⟨assignment, hin, hname⟩)
      exact hS.cons_text (.ident assignment.column)
        (hS.cons_text (.word (by decide)) (hS.weaken (assignment.expr.pervasive_draft hS hexpr)))
    · exact hS.optionalClause (.word (by decide))
        (Expr.pervasive_draftOption hS u.filter hfilter)
    · exact hS.returning (Projected.pervasive_draftEach hS u.returning hreturning)
  | delete d =>
    obtain ⟨h, hreturning⟩ := List.forall_mem_append.1 h
    obtain ⟨htarget, hfilter⟩ := List.forall_mem_append.1 h
    refine d.target.pervasive_draftTarget hS ?_
    repeat' refine hS.append ?_ ?_
    · exact hS.cons_text (.word (by decide)) (d.target.pervasive_draft hS [] htarget)
    · exact hS.optionalClause (.word (by decide))
        (Expr.pervasive_draftOption hS d.filter hfilter)
    · exact hS.returning (Projected.pervasive_draftEach hS d.returning hreturning)

end Statements

end PreparedSql
