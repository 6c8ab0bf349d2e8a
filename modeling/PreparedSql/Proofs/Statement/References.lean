import PreparedSql.Proofs.Draft.Scoping

/-!
# Columns and their tables

Where a statement refers to tables, and which tables are listed around each reference,
is read off the statement: a query lists the tables of its `FROM` clause, an update or
delete lists its target, and what is nested sees the levels outside. The columns of a
target stand alone in its statement, but not in what is nested there.

In whatever compiles, every reference is written so that it agrees with the names
around it: a column goes by the name of its table at the innermost level that lists
the table, and tables that are visible together have different names.
-/

namespace PreparedSql

/-! ## The references of a statement -/

def Select.listed (select : Select) : List TableId := select.labels.map (·.id)

/-- The tables that a query lists; a set operation leaves that to its operands. -/
def QueryBody.listed : QueryBody → List TableId
  | .select inner => inner.listed
  | .setOp _ _ => []

theorem Select.mem_listed (select : Select) :
    ∀ t ∈ select.tables, t.table.id ∈ select.listed ∧
      ∀ join ∈ t.joins, join.table.id ∈ select.listed := by
  have hlabel (table : TableUse) : table.label.id = table.id := by cases table <;> rfl
  intro t ht
  have hlisted (label : TableLabel) (hin : label ∈ t.table.label :: t.joins.map (·.table.label)) :
      label.id ∈ select.listed :=
    List.mem_map_of_mem (List.mem_flatMap.2 ⟨t, ht, hin⟩)
  refine ⟨hlabel t.table ▸ hlisted _ List.mem_cons_self, fun join hjoin => ?_⟩
  rw [← hlabel join.table]
  exact hlisted _ (List.mem_cons_of_mem _ (List.mem_map_of_mem hjoin))

section Sites

variable (s : Spelling)

mutual

/-- The references that an expression writes, in order. The operand of a test against an
empty list is not written. -/
def Expr.sites : Expr → Option TableId → List (List TableId) → List (Site TableId)
  | .value _, _, _ | .param _, _, _ | .inline _, _, _ | .typeId _, _, _ => []
  | .column t name, target, levels => [⟨.column t name, target, levels⟩]
  | .and es, target, levels | .or es, target, levels | .call _ es, target, levels
  | .record es, target, levels | .inCollection _ es _, target, levels =>
    Expr.sitesEach es target levels
  | .not e, target, levels | .isNull _ e, target, levels => e.sites target levels
  | .binary _ e e', target, levels | .like _ e e', target, levels
  | .choice _ e e', target, levels => e.sites target levels ++ e'.sites target levels
  | .inList e list, target, levels =>
    if list.isEmpty then [] else e.sites target levels ++ Expr.sitesEach list target levels
  | .inQuery e q, target, levels => e.sites target levels ++ q.sites none levels
  | .existsRow _ q, _, levels | .subquery q, _, levels => q.sites none levels
  | .count _ argument filter, target, levels =>
    -- A dialect without filters counts a conditional value, whose condition comes first.
    if s.features.countFilter then
      Expr.sitesOption argument target levels ++ Expr.sitesOption filter target levels
    else Expr.sitesOption filter target levels ++ Expr.sitesOption argument target levels

def Expr.sitesEach : List Expr → Option TableId → List (List TableId) → List (Site TableId)
  | [], _, _ => []
  | e :: es, target, levels => e.sites target levels ++ Expr.sitesEach es target levels

def Expr.sitesOption : Option Expr → Option TableId → List (List TableId) → List (Site TableId)
  | none, _, _ => []
  | some e, target, levels => e.sites target levels

/-- The references of a query, inside the levels around it. Its own tables are still
listed where its rows are put in order. -/
def Query.sites : Query → Option TableId → List (List TableId) → List (Site TableId)
  | ⟨body, orderBy, limit, _⟩, target, outer =>
    body.sites target outer ++ OrderTerm.sitesEach orderBy target (body.listed :: outer) ++
      Limit.sitesOption limit target (body.listed :: outer)

def OrderTerm.sitesEach :
    List OrderTerm → Option TableId → List (List TableId) → List (Site TableId)
  | [], _, _ => []
  | ⟨e, _⟩ :: terms, target, levels =>
    e.sites target levels ++ OrderTerm.sitesEach terms target levels

def Limit.sitesOption : Option Limit → Option TableId → List (List TableId) → List (Site TableId)
  | none, _, _ => []
  | some ⟨count, offset⟩, target, levels =>
    count.sites target levels ++ Expr.sitesOption offset target levels

def QueryBody.sites : QueryBody → Option TableId → List (List TableId) → List (Site TableId)
  | .select select, target, outer => select.sites target (select.listed :: outer)
  | .setOp _ operands, target, outer => Query.sitesOperands operands target ([] :: outer)

def Query.sitesOperands : List Query → Option TableId → List (List TableId) → List (Site TableId)
  | [], _, _ => []
  | ⟨body, _, _, _⟩ :: operands, target, outer =>
    body.sites target outer ++ Query.sitesOperands operands target outer

def Select.sites : Select → Option TableId → List (List TableId) → List (Site TableId)
  | ⟨_, projection, tables, filter, groupBy, having, _⟩, target, levels =>
    Projected.sitesEach projection target levels ++ JoinedTable.sitesEach tables target levels ++
      Expr.sitesOption filter target levels ++ Expr.sitesEach groupBy target levels ++
      Expr.sitesOption having target levels

def Projected.sitesEach :
    List Projected → Option TableId → List (List TableId) → List (Site TableId)
  | [], _, _ => []
  | ⟨e, _⟩ :: items, target, levels =>
    e.sites target levels ++ Projected.sitesEach items target levels

def JoinedTable.sitesEach :
    List JoinedTable → Option TableId → List (List TableId) → List (Site TableId)
  | [], _, _ => []
  | ⟨table, joins⟩ :: tables, target, levels =>
    table.sites target levels ++ Join.sitesAll joins target levels ++
      JoinedTable.sitesEach tables target levels

def Join.sitesAll : List Join → Option TableId → List (List TableId) → List (Site TableId)
  | [], _, _ => []
  | ⟨_, table, constraint⟩ :: joins, target, levels =>
    table.sites target levels ++ Expr.sitesOption constraint target levels ++
      Join.sitesAll joins target levels

/-- A table is listed after the query that it stands for. -/
def TableUse.sites : TableUse → Option TableId → List (List TableId) → List (Site TableId)
  | .base id table requested, target, levels =>
    [⟨.table ⟨id, some table.name, requested⟩, target, levels⟩]
  | .derived id q, target, levels =>
    q.sites none levels ++ [⟨.table ⟨id, none, none⟩, target, levels⟩]

end

/-- The statement as a whole lists no tables. -/
def InsertSource.sites : InsertSource → List (Site TableId)
  | .values rows => rows.flatMap fun row => Expr.sitesEach s row none [[]]
  | .query q => q.sites s none [[]]
  | .collection _ => []

def Update.sites (u : Update) : List (Site TableId) :=
  let target := some u.target.id
  let levels := [[u.target.id], []]
  u.target.sites s target levels ++ (u.assignments.flatMap fun a => a.expr.sites s target levels) ++
    Expr.sitesOption s u.filter target levels ++ Projected.sitesEach s u.returning target levels

def Delete.sites (d : Delete) : List (Site TableId) :=
  let target := some d.target.id
  let levels := [[d.target.id], []]
  d.target.sites s target levels ++ Expr.sitesOption s d.filter target levels ++
    Projected.sitesEach s d.returning target levels

def Statement.sites : Statement → List (Site TableId)
  | .query q => q.sites s none []
  | .insert i => i.source.sites s
  | .update u => u.sites s
  | .delete d => d.sites s

end Sites

/-! ## The parts of statements -/

namespace Draft

section Clauses

variable {s : Spelling} {target : Option TableId} {outer : List (List TableId)}
  {level level' : List TableId} {d ds : List Draft} {parts : List (List Draft)}
  {sites sites' : List (Site TableId)}

/-- Parts of a list, each of which lists no tables. The sites are those of all parts. -/
inductive ScopedEach (target : Option TableId) (outer : List (List TableId))
    (level : List TableId) : List (List Draft) → List (Site TableId) → Prop where
  | nil : ScopedEach target outer level [] []
  | cons {part parts sites sites'} : Scoped target outer level part level sites →
      ScopedEach target outer level parts sites' →
      ScopedEach target outer level (part :: parts) (sites ++ sites')

/-- A part that may be missing. -/
def ScopedOption (target : Option TableId) (outer : List (List TableId)) (level : List TableId) :
    Option (List Draft) → List (Site TableId) → Prop
  | none, sites => sites = []
  | some part, sites => Scoped target outer level part level sites

namespace Scoped

/-- Something that refers to no table stands before. -/
theorem after {mid : List TableId} (h : Scoped target outer level ds mid [])
    (h' : Scoped target outer mid d level' sites) :
    Scoped target outer level (ds ++ d) level' sites :=
  h.append h'

/-- Something that refers to no table stands behind. -/
theorem before (h : Scoped target outer level ds level' sites)
    (h' : Scoped target outer level' d level' []) :
    Scoped target outer level (ds ++ d) level' sites := by
  simpa using h.append h'

theorem text (w : String) : Scoped target outer level [.text w] level [] := .plain rfl

theorem delimiter (w : String) (kind : DelimiterKind) :
    Scoped target outer level [.delimiter w kind] level [] := .plain rfl

end Scoped

theorem scoped_literal (v : Value) : Scoped target outer level [literal s v] level [] := by
  unfold literal
  split
  · exact .text _
  · exact .fault _

theorem scoped_clause (h : Scoped target outer level ds level' sites) :
    Scoped target outer level (clause ds) level' sites :=
  (Scoped.delimiter "" .row).after h

/-- Something in brackets. -/
theorem scoped_bracket (opening : String) (h : Scoped target outer level ds level' sites) :
    Scoped target outer level (.text opening :: ds ++ [.text ")"]) level' sites :=
  ((Scoped.text opening).after h).before (.text ")")

theorem scoped_parensIf (b : Bool) (h : Scoped target outer level ds level' sites) :
    Scoped target outer level (parensIf b ds) level' sites := by
  cases b with
  | false => exact h
  | true => exact scoped_bracket "(" h

theorem ScopedEach.intercalate {d : Draft} (hsep : d.isPlain = true)
    (h : ScopedEach target outer level parts sites) :
    Scoped target outer level (List.intercalate [d] parts) level sites := by
  induction h with
  | nil => exact .nil
  | cons hpart hrest ih =>
    cases hrest with
    | nil => simpa using hpart
    | cons _ _ =>
      rw [List.intercalate_cons_cons]
      exact (hpart.before (.plain hsep)).append ih

theorem ScopedEach.commas (kind : DelimiterKind) (h : ScopedEach target outer level parts sites) :
    Scoped target outer level (commas kind parts) level sites :=
  h.intercalate rfl

/-- Parts that are parenthesised if need be. -/
theorem ScopedEach.parensIf {bs : List Bool} (hlength : bs.length = parts.length)
    (h : ScopedEach target outer level parts sites) :
    ScopedEach target outer level (List.zipWith Draft.parensIf bs parts) sites := by
  induction h generalizing bs with
  | nil =>
    rw [List.zipWith_nil_right]
    exact .nil
  | cons hpart _ ih =>
    cases bs with
    | nil => cases hlength
    | cons b bs => exact .cons (scoped_parensIf b hpart) (ih (by simpa using hlength))

theorem scoped_conjunction {es : List Expr} (hlength : es.length = parts.length)
    (h : ScopedEach target outer level parts sites) :
    Scoped target outer level (conjunction es parts) level sites := by
  unfold conjunction
  split
  · next hempty =>
    rw [List.isEmpty_iff.1 hempty] at hlength
    obtain rfl := List.length_eq_zero_iff.1 hlength.symm
    cases h
    exact .text _
  · exact (h.parensIf (by simpa using hlength)).intercalate rfl

theorem scoped_disjunction (h : ScopedEach target outer level parts sites) :
    Scoped target outer level (disjunction parts) level sites := by
  unfold disjunction
  split
  · next hempty =>
    obtain rfl := List.isEmpty_iff.1 hempty
    cases h
    exact .text _
  · exact h.intercalate rfl

/-- A comparison with `NULL` writes the other operand only. -/
theorem scoped_comparison {op : BinaryOp} {lhs rhs : Expr} {l r : List Draft}
    (hl : Scoped target outer level l level sites) (hr : Scoped target outer level r level sites')
    (hnull : rhs.isNullValue = true → sites' = []) :
    Scoped target outer level (comparison op lhs rhs l r) level (sites ++ sites') := by
  have hl' : Scoped target outer level (operand lhs l) level sites := scoped_parensIf _ hl
  have hr' : Scoped target outer level (operand rhs r) level sites' := scoped_parensIf _ hr
  unfold comparison
  split
  · next hvalue =>
    rw [hnull hvalue]
    exact hl'.append (.text _)
  · next hvalue =>
    rw [hnull hvalue]
    exact hl'.append (.text _)
  · exact hl'.append ((Scoped.text _).after hr')

/-- A query in parentheses, with a level of its own. -/
theorem scoped_enclosed (opening : String)
    (h : Scoped none (level :: outer) [] ds level' sites) :
    Scoped target outer level (enclosed opening ds) level sites := by
  have hnested : Scoped target outer level [nested ds] level sites := .scope .nested (.group h)
  exact scoped_bracket opening hnested

theorem scoped_membership {e : Expr} (hd : Scoped target outer level d level sites)
    (h : ScopedEach target outer level parts sites') :
    Scoped target outer level (membership e d parts) level
      (if parts.isEmpty then [] else sites ++ sites') := by
  unfold membership
  split
  · exact .text _
  · have hoperand : Scoped target outer level (operand e d) level sites := scoped_parensIf _ hd
    rw [List.append_assoc]
    exact hoperand.append (scoped_bracket "IN (" (h.commas .other))

theorem scoped_noRows (s : Spelling) : Scoped target outer level (noRows s) level [] := by
  unfold noRows
  split
  · exact (Scoped.text _).after (.text _)
  · exact .text _

theorem ScopedOption.getD {argument : Option (List Draft)}
    (h : ScopedOption target outer level argument sites) (word : String) :
    Scoped target outer level (argument.getD [.text word]) level sites := by
  cases argument with
  | none =>
    cases h
    exact .text word
  | some part => exact h

theorem scoped_count (s : Spelling) (distinct : Bool) {argument filter : Option (List Draft)}
    (hargument : ScopedOption target outer level argument sites)
    (hfilter : ScopedOption target outer level filter sites') :
    Scoped target outer level (count s distinct argument filter) level
      (if s.features.countFilter then sites ++ sites' else sites' ++ sites) := by
  have hdistinct : Scoped target outer level (if distinct then [.text "DISTINCT"] else []) level
      [] := by
    split
    · exact .text _
    · exact .nil
  have hopening : Scoped target outer level
      (.text "COUNT(" :: if distinct then [.text "DISTINCT"] else []) level [] :=
    (Scoped.text "COUNT(").after hdistinct
  unfold count
  split
  · exact .fault _
  · refine hopening.after ?_
    cases filter with
    | none =>
      cases hfilter
      simpa using (hargument.getD "*").before (.text ")")
    | some f =>
      cases s.features.countFilter with
      | true =>
        have hfilter' := scoped_bracket "FILTER (WHERE" hfilter
        simpa using ((hargument.getD "*").before (.text ")")).append hfilter'
      | false =>
        have hcase := (Scoped.text "CASE WHEN").after hfilter
        have hthen := (Scoped.text "THEN").after (hargument.getD "1")
        have hend : Scoped target outer level [.text "END", .text ")"] level [] :=
          (Scoped.text "END").after (.text ")")
        simpa using (hcase.append hthen).before hend

/-- Equalities with the cells of a row. -/
theorem ScopedEach.equalities (column : Nat → Nat) (h : ScopedEach target outer level parts sites) :
    ScopedEach target outer level
      (parts.mapIdx fun index d => d ++ [.text "=", .cell (column index)]) sites := by
  induction h generalizing column with
  | nil => exact .nil
  | cons hpart _ ih =>
    rw [List.mapIdx_cons]
    refine .cons (hpart.before ?_) (ih fun index => column (index + 1))
    exact (Scoped.text "=").after (.plain rfl)

theorem scoped_collectionTest (s : Spelling) (style : CollectionTest) (key : Key)
    {es : List Expr} (hlength : es.length = parts.length)
    (h : ScopedEach target outer level parts sites) :
    Scoped target outer level (collectionTest s style key es parts) level sites := by
  unfold collectionTest
  split
  · next e d =>
    have hempty : Scoped target outer level (.text "SELECT NULL" :: noRows s) level [] :=
      (Scoped.text _).after (scoped_noRows s)
    have hrows : Scoped target outer level
        [.each key [.cell 0] (.text "SELECT NULL" :: noRows s) ", "] level [] :=
      .each key ", " (.plain rfl) hempty
    cases h with
    | cons hd hrest =>
      cases hrest
      rw [List.append_nil]
      exact (scoped_parensIf _ hd).before (scoped_bracket "IN (" hrows)
  · exact .fault _
  · exact .fault _
  · have hoperands : ScopedEach target outer level (List.zipWith operand es parts) sites := by
      have hlength' : (es.map Expr.isCompound).length = parts.length := by simpa using hlength
      have hparens := h.parensIf hlength'
      rw [List.zipWith_map_left] at hparens
      exact hparens
    have hequalities := (hoperands.equalities id).intercalate (d := .text "AND") rfl
    have heach := Scoped.each key " OR " hequalities (.text "1 = 0")
    rw [List.append_nil] at heach
    exact heach

theorem scoped_qualifiedName (s : Spelling) (table : Table) :
    Scoped target outer level (qualifiedName s table) level [] := by
  refine Scoped.after ?_ (.text _)
  split
  · exact .nil
  · next schema _ =>
    split
    · refine Scoped.after ?_ (.plain rfl)
      split
      · cases schema.catalog with
        | none => exact .nil
        | some c => exact .plain rfl
      · exact .nil
    · exact .nil

theorem scoped_hint (s : Spelling) (derived : Bool) (h : IndexHint) :
    Scoped target outer level (hint s derived h) level [] := by
  unfold hint
  extract_lets form
  have hform : Scoped target outer level form level [] := by
    unfold form
    split
    · exact .fault _
    · have hname : Scoped target outer level [ident s h.index] level [] := .text _
      exact scoped_bracket "USE INDEX (" hname
    · exact (Scoped.text _).after (.text _)
  cases derived with
  | true => exact .fault _
  | false =>
    cases h.when? with
    | none => exact hform
    | some key => exact .choice key .nil hform

theorem scoped_hintsOn (s : Spelling) (derived : Bool) (hints : List IndexHint) (t : TableId) :
    Scoped target outer level (hintsOn s derived hints t) level [] := by
  unfold hintsOn
  induction hints.filter (·.table == t) with
  | nil => exact .nil
  | cons h hints ih =>
    rw [List.flatMap_cons]
    exact (scoped_hint s derived h).after ih

/-- Tables become listed in order. -/
theorem scoped_introduce (labels : List TableLabel) :
    Scoped target outer level (labels.map .introduce) (level ++ labels.map (·.id)) [] := by
  induction labels generalizing level with
  | nil => simpa using Scoped.nil
  | cons label labels ih =>
    have hfirst : Scoped target outer level [.introduce label] (level ++ [label.id]) [] :=
      .introduce label
    simpa using hfirst.append ih

theorem scoped_optionalClause (keyword : String) {filter : Option (List Draft)}
    (h : ScopedOption target outer level filter sites) :
    Scoped target outer level (optionalClause keyword filter) level sites := by
  cases filter with
  | none =>
    cases h
    exact .nil
  | some part => exact scoped_clause ((Scoped.text keyword).after h)

theorem scoped_listClause (keyword : String) (h : ScopedEach target outer level parts sites) :
    Scoped target outer level (listClause keyword parts) level sites := by
  unfold listClause
  split
  · next hempty =>
    obtain rfl := List.isEmpty_iff.1 hempty
    cases h
    exact .nil
  · exact scoped_clause ((Scoped.text keyword).after (h.commas .other))

/-- The tables that are read. With no table, some dialects name one that is always there. -/
theorem scoped_from {tables : List JoinedTable} (dual : Bool)
    (hempty : parts.isEmpty = tables.isEmpty) (h : ScopedEach target outer level parts sites) :
    Scoped target outer level
      (if tables.isEmpty then if dual then clause [.text "FROM DUAL"] else []
        else clause (.text "FROM" :: commas .other parts)) level sites := by
  split
  · next hnone =>
    obtain rfl := List.isEmpty_iff.1 (hempty.trans hnone)
    cases h
    split
    · exact scoped_clause (.text _)
    · exact .nil
  · exact scoped_clause ((Scoped.text "FROM").after (h.commas .other))

theorem scoped_projected (h : Scoped target outer level d level sites) (label : Option String) :
    Scoped target outer level (projected s d label) level sites := by
  refine h.before ?_
  cases label with
  | none => exact .nil
  | some name => exact (Scoped.text "AS").after (.text _)

theorem scoped_lock (s : Spelling) (l : Option Lock) :
    Scoped target outer level (lock s l) level [] := by
  cases l with
  | none => exact .nil
  | some l =>
    simp only [lock]
    split
    · exact scoped_clause (.text _)
    · exact .fault _

theorem scoped_returning (s : Spelling) (h : ScopedEach target outer level parts sites) :
    Scoped target outer level (returning s parts) level sites := by
  unfold returning
  split
  · next hempty =>
    obtain rfl := List.isEmpty_iff.1 hempty
    cases h
    exact .nil
  · split
    · exact scoped_clause ((Scoped.text _).after (h.commas .other))
    · exact .fault _

end Clauses

end Draft

open Draft

section Statements

variable {s : Spelling}

theorem Expr.isEmpty_draftEach (es : List Expr) :
    (Expr.draftEach s es).isEmpty = es.isEmpty := by
  cases es <;> rfl

theorem JoinedTable.isEmpty_draftEach (hints : List IndexHint) (tables : List JoinedTable) :
    (JoinedTable.draftEach s hints tables).isEmpty = tables.isEmpty := by
  rw [JoinedTable.draftEach_eq_map, List.isEmpty_map]

mutual

/-- An expression refers to tables at its sites, and lists none. -/
theorem Expr.scoped_draft : ∀ (e : Expr) {target : Option TableId} {outer : List (List TableId)}
    {level : List TableId},
    Scoped target outer level (e.draft s) level (e.sites s target (level :: outer))
  | .value v, _, _, _ => scoped_literal v
  | .column t name, _, _, _ => .column t name
  | .param _, _, _, _ | .inline _, _, _, _ | .typeId _, _, _, _ => .plain rfl
  | .and es, _, _, _ =>
    scoped_conjunction (by simp [Expr.draftEach_eq_map]) (Expr.scoped_draftEach es)
  | .or es, _, _, _ => scoped_disjunction (Expr.scoped_draftEach es)
  | .not e, _, _, _ => scoped_bracket "NOT (" e.scoped_draft
  | .binary op lhs rhs, _, _, _ => by
    refine scoped_comparison lhs.scoped_draft rhs.scoped_draft fun hnull => ?_
    cases rhs with
    | value v => rfl
    | _ => cases hnull
  | .isNull _ e, _, _, _ => (scoped_parensIf _ e.scoped_draft).before (.text _)
  | .like _ e pattern, _, _, _ =>
    (scoped_parensIf _ e.scoped_draft).append
      ((Scoped.text _).after (scoped_parensIf _ pattern.scoped_draft))
  | .inList e list, target, outer, level => by
    have hlist : ScopedEach target outer level _ _ := Expr.scoped_draftEach list
    have he : Scoped target outer level _ level _ := e.scoped_draft
    have h := scoped_membership (e := e) he hlist
    rw [Expr.isEmpty_draftEach] at h
    exact h
  | .inQuery e q, _, _, _ =>
    (scoped_parensIf _ e.scoped_draft).append (scoped_enclosed "IN (" q.scoped_draft)
  | .inCollection style es key, _, _, _ =>
    scoped_collectionTest s style key (by simp [Expr.draftEach_eq_map]) (Expr.scoped_draftEach es)
  | .existsRow _ q, _, _, _ => scoped_enclosed _ q.scoped_draft
  | .count distinct argument filter, _, _, _ =>
    scoped_count s distinct (Expr.scoped_draftOption argument) (Expr.scoped_draftOption filter)
  | .call name arguments, _, _, _ =>
    scoped_bracket (name ++ "(") ((Expr.scoped_draftEach arguments).commas .other)
  | .record fields, _, _, _ => scoped_bracket "(" ((Expr.scoped_draftEach fields).commas .other)
  | .subquery q, _, _, _ => scoped_enclosed "(" q.scoped_draft
  | .choice key main alternative, _, _, _ =>
    .choice key main.scoped_draft alternative.scoped_draft

theorem Expr.scoped_draftEach : ∀ (es : List Expr) {target : Option TableId}
    {outer : List (List TableId)} {level : List TableId},
    ScopedEach target outer level (Expr.draftEach s es)
      (Expr.sitesEach s es target (level :: outer))
  | [], _, _, _ => .nil
  | e :: es, _, _, _ => .cons e.scoped_draft (Expr.scoped_draftEach es)

theorem Expr.scoped_draftOption : ∀ (e : Option Expr) {target : Option TableId}
    {outer : List (List TableId)} {level : List TableId},
    ScopedOption target outer level (Expr.draftOption s e)
      (Expr.sitesOption s e target (level :: outer))
  | none, _, _, _ => rfl
  | some e, _, _, _ => e.scoped_draft

/-- A query starts with nothing listed and leaves its own tables. -/
theorem Query.scoped_draft : ∀ (q : Query) {target : Option TableId}
    {outer : List (List TableId)},
    Scoped target outer [] (q.draft s) q.body.listed (q.sites s target outer)
  | ⟨body, orderBy, limit, lock⟩, _, _ =>
    ((body.scoped_draft.append
      (scoped_listClause "ORDER BY" (OrderTerm.scoped_draftEach orderBy))).append
        (Limit.scoped_draftOption limit)).before (scoped_lock s lock)

theorem OrderTerm.scoped_draftEach : ∀ (terms : List OrderTerm) {target : Option TableId}
    {outer : List (List TableId)} {level : List TableId},
    ScopedEach target outer level (OrderTerm.draftEach s terms)
      (OrderTerm.sitesEach s terms target (level :: outer))
  | [], _, _, _ => .nil
  | ⟨e, direction⟩ :: terms, _, _, _ => by
    refine .cons (e.scoped_draft.before ?_) (OrderTerm.scoped_draftEach terms)
    cases direction with
    | none => exact .nil
    | some d => exact .text _

theorem Limit.scoped_draftOption : ∀ (limit : Option Limit) {target : Option TableId}
    {outer : List (List TableId)} {level : List TableId},
    Scoped target outer level (Limit.draftOption s limit) level
      (Limit.sitesOption s limit target (level :: outer))
  | none, _, _, _ => .nil
  | some ⟨count, offset⟩, target, outer, level => by
    have hoffset : ScopedOption target outer level _ _ := Expr.scoped_draftOption offset
    have hcount : Scoped target outer level _ level _ := count.scoped_draft
    refine scoped_clause (((Scoped.text "LIMIT").after hcount).append ?_)
    split
    · next hnone =>
      rw [hnone] at hoffset
      have hsites : Expr.sitesOption s offset target (level :: outer) = [] := hoffset
      rw [hsites]
      exact .nil
    · next d hd =>
      rw [hd] at hoffset
      exact (Scoped.text "OFFSET").after hoffset

theorem QueryBody.scoped_draft : ∀ (body : QueryBody) {target : Option TableId}
    {outer : List (List TableId)},
    Scoped target outer [] (body.draft s) body.listed (body.sites s target outer)
  | .select select, _, _ => select.scoped_draft
  | .setOp op operands, _, _ => by
    simp only [QueryBody.draft]
    split
    · exact .fault _
    · exact Query.scoped_draftOperands op true operands

theorem Query.scoped_draftOperands (op : SetOp) : ∀ (first : Bool) (operands : List Query)
    {target : Option TableId} {outer : List (List TableId)},
    Scoped target outer [] (Query.draftOperands s op first operands) []
      (Query.sitesOperands s operands target ([] :: outer))
  | _, [], _, _ => .nil
  | first, ⟨body, orderBy, limit, lock⟩ :: operands, target, outer => by
    refine .append ?_ (Query.scoped_draftOperands op false operands)
    split
    · refine Scoped.after ?_ (.scope .operand body.scoped_draft)
      split
      · exact .nil
      · exact scoped_clause ((Scoped.text op.sql).after (scoped_clause .nil))
    · exact .fault _

theorem Select.scoped_draft : ∀ (select : Select) {target : Option TableId}
    {outer : List (List TableId)},
    Scoped target outer [] (select.draft s) select.listed
      (select.sites s target (select.listed :: outer))
  | ⟨distinct, projection, tables, filter, groupBy, having, hints⟩, target, outer => by
    let select : Select := ⟨distinct, projection, tables, filter, groupBy, having, hints⟩
    have hlisted : Scoped target outer [] (select.labels.map .introduce) select.listed [] :=
      scoped_introduce select.labels
    have hdistinct : Scoped target outer select.listed (if distinct then [.text "DISTINCT"] else [])
        select.listed [] := by
      split
      · exact .text _
      · exact .nil
    have hprojection : ScopedEach target outer select.listed _ _ :=
      Projected.scoped_draftEach projection
    have htables : ScopedEach target outer select.listed _ _ :=
      JoinedTable.scoped_draftEach hints tables select.mem_listed
    have hfrom := scoped_from (filter.isSome && s.features.selectWithoutFromNeedsDual)
      (JoinedTable.isEmpty_draftEach hints tables) htables
    have hfilter : ScopedOption target outer select.listed _ _ := Expr.scoped_draftOption filter
    have hgroup : ScopedEach target outer select.listed _ _ := Expr.scoped_draftEach groupBy
    have hhaving : ScopedOption target outer select.listed _ _ := Expr.scoped_draftOption having
    simp only [Select.draft]
    split
    · exact .fault _
    · simp only [Select.sites, List.append_assoc]
      refine hlisted.after ?_
      split
      · exact (Scoped.text "SELECT").after (hdistinct.after
          ((Scoped.group (hprojection.commas .column)).append (hfrom.append
            ((scoped_optionalClause "WHERE" hfilter).append
              ((scoped_listClause "GROUP BY" hgroup).append
                (scoped_optionalClause "HAVING" hhaving))))))
      · exact .fault _

theorem Projected.scoped_draftEach : ∀ (items : List Projected) {target : Option TableId}
    {outer : List (List TableId)} {level : List TableId},
    ScopedEach target outer level (Projected.draftEach s items)
      (Projected.sitesEach s items target (level :: outer))
  | [], _, _, _ => .nil
  | ⟨e, label⟩ :: items, _, _, _ =>
    .cons (scoped_projected e.scoped_draft label) (Projected.scoped_draftEach items)

/-- The tables of a `FROM` clause, which are listed by then. -/
theorem JoinedTable.scoped_draftEach (hints : List IndexHint) : ∀ (tables : List JoinedTable)
    {target : Option TableId} {outer : List (List TableId)} {level : List TableId},
    (∀ t ∈ tables, t.table.id ∈ level ∧ ∀ join ∈ t.joins, join.table.id ∈ level) →
      ScopedEach target outer level (JoinedTable.draftEach s hints tables)
        (JoinedTable.sitesEach s tables target (level :: outer))
  | [], _, _, _, _ => .nil
  | ⟨table, joins⟩ :: tables, _, _, _, h => by
    obtain ⟨htable, hjoins⟩ := h _ List.mem_cons_self
    exact .cons ((table.scoped_draft hints htable).append (Join.scoped_draftAll hints joins hjoins))
      (JoinedTable.scoped_draftEach hints tables fun t ht => h t (List.mem_cons_of_mem _ ht))

theorem Join.scoped_draftAll (hints : List IndexHint) : ∀ (joins : List Join)
    {target : Option TableId} {outer : List (List TableId)} {level : List TableId},
    (∀ join ∈ joins, join.table.id ∈ level) →
      Scoped target outer level (Join.draftAll s hints joins) level
        (Join.sitesAll s joins target (level :: outer))
  | [], _, _, _, _ => .nil
  | ⟨kind, table, constraint⟩ :: joins, target, outer, level, h => by
    have htable : Scoped target outer level _ level _ :=
      table.scoped_draft hints (h _ List.mem_cons_self)
    have hconstraint : ScopedOption target outer level _ _ := Expr.scoped_draftOption constraint
    have hrest : Scoped target outer level _ level _ :=
      Join.scoped_draftAll hints joins fun join hjoin => h join (List.mem_cons_of_mem _ hjoin)
    refine Scoped.append ?_ hrest
    split
    · next found hfound =>
      obtain ⟨cause, rfl⟩ := exists_of_joinFault? hfound
      exact .fault cause
    · refine (scoped_clause ((Scoped.text _).after htable)).append ?_
      split
      · next hnone =>
        rw [hnone] at hconstraint
        have hsites : Expr.sitesOption s constraint target (level :: outer) = [] := hconstraint
        rw [hsites]
        exact .nil
      · next d hd =>
        rw [hd] at hconstraint
        exact (Scoped.text "ON").after hconstraint

theorem TableUse.scoped_draft (hints : List IndexHint) : ∀ (table : TableUse)
    {target : Option TableId} {outer : List (List TableId)} {level : List TableId},
    table.id ∈ level →
      Scoped target outer level (table.draft s hints) level
        (table.sites s target (level :: outer))
  | .base id table _, _, _, _, h =>
    (scoped_qualifiedName s table).after
      ((Scoped.tableName h).before (scoped_hintsOn s false hints id))
  | .derived id q, _, _, _, h =>
    (scoped_enclosed "(" q.scoped_draft).append
      ((Scoped.tableName h).before (scoped_hintsOn s true hints id))

end

/-- Parts that refer to no tables. -/
theorem scopedEach_nil {target : Option TableId} {outer : List (List TableId)}
    {level : List TableId} {parts : List (List Draft)}
    (h : ∀ part ∈ parts, Scoped target outer level part level []) :
    ScopedEach target outer level parts [] := by
  induction parts with
  | nil => exact .nil
  | cons part parts ih =>
    exact .cons (h part List.mem_cons_self)
      (ih fun part hpart => h part (List.mem_cons_of_mem _ hpart))

theorem InsertSource.scoped_draft (width : Nat) (source : InsertSource) :
    Scoped none [] [] (source.draft s width) [] (source.sites s) := by
  cases source with
  | values rows =>
    have hrows : ScopedEach none [] []
        (rows.map fun row => parens (commas .other (Expr.draftEach s row)))
        (rows.flatMap fun row => Expr.sitesEach s row none [[]]) := by
      induction rows with
      | nil => exact .nil
      | cons row rows ih =>
        exact .cons (scoped_bracket "(" ((Expr.scoped_draftEach row).commas .other)) ih
    simp only [InsertSource.draft]
    split
    · exact .fault _
    · split
      · exact .fault _
      · exact scoped_clause ((Scoped.text "VALUES").after (hrows.commas .row))
  | query q => exact scoped_clause (.scope .nested (.group q.scoped_draft))
  | collection key =>
    have hcells : ScopedEach none [] [] ((List.range width).map fun index => [.cell index]) [] :=
      scopedEach_nil fun part hpart => by
        obtain ⟨index, -, rfl⟩ := List.mem_map.1 hpart
        exact .plain rfl
    have hnulls : ScopedEach none [] [] (List.replicate width [.text "NULL"]) [] :=
      scopedEach_nil fun part hpart => by
        rw [List.eq_of_mem_replicate hpart]
        exact .text _
    have hempty := ((Scoped.text "SELECT").after (hnulls.commas .other)).after (scoped_noRows s)
    exact scoped_clause (.each key " UNION ALL "
      ((Scoped.text "SELECT").after (hcells.commas .other)) hempty)

theorem Insert.scoped_draft (i : Insert) :
    Scoped none [] [] (i.draft s) [] (i.source.sites s) := by
  have hnames (names : List String) :
      ScopedEach none [] [] (names.map fun name => [ident s name]) [] :=
    scopedEach_nil fun part hpart => by
      obtain ⟨name, -, rfl⟩ := List.mem_map.1 hpart
      exact .text _
  unfold Insert.draft
  split
  · exact .fault _
  · have htable : Scoped none [] [] _ [] [] :=
      (Scoped.text "INSERT INTO").after (scoped_qualifiedName s i.table)
    have hcolumns := htable.after (scoped_bracket "(" ((hnames i.columns).commas .other))
    exact (hcolumns.after (i.source.scoped_draft i.columns.length)).before
      (scoped_returning s (hnames i.returning))

/-- A statement with a target, which it lists. -/
theorem TableUse.scoped_draftTarget {table : TableUse} {ds : List Draft}
    {sites : List (Site TableId)} {inner : List TableId}
    (h : Scoped (some table.id) [[]] [table.id] ds inner sites) :
    Scoped none [] [] (table.draftTarget ds) [] sites := by
  cases table with
  | base id table requested => exact .scope (.target ⟨id, some table.name, requested⟩) h
  | derived id q => exact .fault _

/-- The target behind the word that starts the statement. -/
theorem TableUse.scoped_keyword (table : TableUse) (keyword : String) :
    Scoped (some table.id) [[]] [table.id] (.text keyword :: table.draft s []) [table.id]
      (table.sites s (some table.id) [[table.id], []]) :=
  (Scoped.text keyword).after (table.scoped_draft [] List.mem_cons_self)

theorem Update.scoped_draft (u : Update) : Scoped none [] [] (u.draft s) [] (u.sites s) := by
  have hassignments : ScopedEach (some u.target.id) [[]] [u.target.id]
      (u.assignments.map (·.draft s))
      (u.assignments.flatMap fun a => a.expr.sites s (some u.target.id) [[u.target.id], []]) := by
    induction u.assignments with
    | nil => exact .nil
    | cons a assignments ih =>
      exact .cons ((Scoped.text _).after ((Scoped.text "=").after a.expr.scoped_draft)) ih
  unfold Update.draft
  split
  · exact .fault _
  · have hset := (u.target.scoped_keyword (s := s) "UPDATE").append
      (scoped_listClause "SET" hassignments)
    have hfilter := hset.append
      (scoped_optionalClause "WHERE" (Expr.scoped_draftOption (s := s) u.filter))
    exact TableUse.scoped_draftTarget
      (hfilter.append (scoped_returning s (Projected.scoped_draftEach u.returning)))

theorem Delete.scoped_draft (d : Delete) : Scoped none [] [] (d.draft s) [] (d.sites s) := by
  have hfilter := (d.target.scoped_keyword (s := s) "DELETE FROM").append
    (scoped_optionalClause "WHERE" (Expr.scoped_draftOption (s := s) d.filter))
  exact TableUse.scoped_draftTarget
    (hfilter.append (scoped_returning s (Projected.scoped_draftEach d.returning)))

theorem Statement.scoped_draft (statement : Statement) :
    ∃ level, Scoped none [] [] (statement.draft s) level (statement.sites s) := by
  cases statement with
  | query q => exact ⟨_, q.scoped_draft⟩
  | insert i => exact ⟨_, i.scoped_draft⟩
  | update u => exact ⟨_, u.scoped_draft⟩
  | delete d => exact ⟨_, d.scoped_draft⟩

end Statements

namespace Compiler

variable {c : Compiler} {statement : Statement} {t : Template}

/-- At the start of a statement names are reserved, but none is visible. -/
theorem names_aliases (c : Compiler) : c.names.aliases = [] := by
  have hfold (reserved : List String) (ns : Names) :
      (reserved.foldl Names.take ns).aliases = ns.aliases := by
    induction reserved generalizing ns with
    | nil => rfl
    | cons name reserved ih =>
      rw [List.foldl_cons, ih, Names.take]
      split
      · rfl
      · rfl
  exact hfold c.options.reserved _

/-- So no table is listed either. -/
theorem represents_names (c : Compiler) : c.names.Represents [[]] := by
  refine ⟨?_, ?_, ?_⟩ <;> simp [c.names_aliases]

/-- In a statement that compiles, every reference to a table is written by the names
around it. The references are those of the statement; around each, level by level,
are the tables that the enclosing statements list, with the names under which these
are written. A column of the target of its own statement is written alone; any other
behind the name of its table at the innermost level that lists it. A table that is
listed is followed by that name, unless it is the table's own. No two tables that are
listed around a reference have the same name, in any case. -/
theorem references_agree (h : c.compile statement = .ok t) :
    ∃ level refs, Draft.Laid none [] [] (statement.draft c.spelling) t.fragments level refs ∧
      refs.map (·.1.unnamed) = statement.sites c.spelling ∧
      ∀ r ∈ refs, r.1.Spelled c.format.quote r.2 ∧ r.1.Unambiguous := by
  obtain ⟨ns, hresolves⟩ := resolves_of_compile h
  obtain ⟨ids, hscoped⟩ := statement.scoped_draft (s := c.spelling)
  obtain ⟨level, refs, hlaid, -, hsites, hright, -⟩ :=
    hscoped.laid hresolves c.represents_names rfl rfl
  exact ⟨level, refs, hlaid, hsites, hright⟩

/-- An update that compares its target with another occurrence of the same table, for
which the target's name is asked for in capitals. -/
theorem references_agree_nested :
    let c : Compiler := ⟨.postgresql, {}⟩
    let other : TableUse := .base ⟨1⟩ ⟨"accounts", none⟩ (some "Accounts")
    let owned : Expr := .binary .eq (.column ⟨1⟩ "owner") (.column ⟨0⟩ "owner")
    let inner : Query := ⟨.select ⟨false, [⟨.value (.int32 1), none⟩], [⟨other, []⟩], some owned,
      [], none, []⟩, [], none, none⟩
    let statement : Statement := .update ⟨.base ⟨0⟩ ⟨"accounts", none⟩ none,
      [⟨"balance", .column ⟨0⟩ "balance"⟩], some (.existsRow false inner), []⟩
    (statement.sites c.spelling).length = 5 ∧
      ∃ t, c.compile statement = .ok t ∧
        ∃ level refs, Draft.Laid none [] [] (statement.draft c.spelling) t.fragments level refs ∧
          refs.map (·.1.unnamed) = statement.sites c.spelling ∧
          ∀ r ∈ refs, r.1.Spelled c.format.quote r.2 ∧ r.1.Unambiguous := by
  intro c other owned inner statement
  obtain ⟨t, hcompile, -⟩ := Draft.exists_ok_of_any (x := c.compile statement) (P := fun _ => True)
    (by decide +kernel)
  exact ⟨rfl, t, hcompile, references_agree hcompile⟩

end Compiler

end PreparedSql
