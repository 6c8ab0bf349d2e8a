import PreparedSql.Proofs.Draft.Lines
import PreparedSql.Proofs.Draft.Scoping

/-!
# The lines of statements

Expressions are phrases and queries are blocks: an indented group stands only behind the word
`SELECT` or an opening parenthesis. The one exception is a query that rows are inserted from. It is
on lines of its own below the column list, and in an indented group nevertheless.
-/

namespace PreparedSql

open Draft

variable {w : Setting} {s : Spelling}

theorem Expr.forall_mem_draftEach {P : List Draft → Prop} {es : List Expr}
    (h : ∀ e ∈ es, P (e.draft s)) : ∀ part ∈ Expr.draftEach s es, P part := by
  rw [Expr.draftEach_eq_map]
  exact List.forall_mem_map.2 h

theorem Expr.filler_draftEach {es : List Expr} (h : ∀ e ∈ es, Phrase w (e.draft s)) :
    ∀ part ∈ Expr.draftEach s es, Filler w part :=
  Expr.forall_mem_draftEach fun e he => (h e he).goesOn

mutual

theorem Expr.phrase_draft (hw : w.Settled) : ∀ e : Expr, Phrase w (e.draft s)
  | .value v => .literal v
  | .column t name => .column t name
  | .param p => .of_loose fun _ => .param p
  | .inline _ | .typeId _ => .of_loose fun _ => .hole _
  | .and es => by
    rw [Expr.draft, Expr.draftEach_eq_map]
    exact .conjunction _ es (Expr.phrase_drafts hw es)
  | .or es => .disjunction (Expr.forall_mem_draftEach (Expr.phrase_drafts hw es))
  | .not e => .bracket (by decide) (e.phrase_draft hw).goesOn
  | .binary op lhs rhs => .comparison op lhs rhs (lhs.phrase_draft hw) (rhs.phrase_draft hw)
  | .isNull negated e =>
    ((e.phrase_draft hw).operand e).append (.text (by cases negated <;> decide))
  | .like negated e pattern =>
    ((e.phrase_draft hw).operand e).append
      (.lead (by cases negated <;> decide) ((pattern.phrase_draft hw).operand pattern).goesOn)
  | .inList e list =>
    .membership e (e.phrase_draft hw) (Expr.filler_draftEach (Expr.phrase_drafts hw list))
  | .inQuery e q =>
    ((e.phrase_draft hw).operand e).append (.enclosed hw (by decide) (q.block_draft hw))
  | .inCollection style es key => by
    rw [Expr.draft, Expr.draftEach_eq_map]
    exact .collectionTest _ style key es (Expr.phrase_drafts hw es)
  | .existsRow negated q => .enclosed hw (by cases negated <;> decide) (q.block_draft hw)
  | .count distinct argument filter =>
    .count distinct (Expr.filler_draftOption hw argument) (Expr.filler_draftOption hw filter)
  | .call name arguments =>
    .bracket (by simp) (.commas (Expr.filler_draftEach (Expr.phrase_drafts hw arguments)))
  | .record fields => .parens (.commas (Expr.filler_draftEach (Expr.phrase_drafts hw fields)))
  | .subquery q => .enclosed hw (by decide) (q.block_draft hw)
  | .choice _ main alternative => .choice (main.phrase_draft hw) (alternative.phrase_draft hw)

theorem Expr.phrase_drafts (hw : w.Settled) : ∀ es : List Expr, ∀ e ∈ es, Phrase w (e.draft s)
  | [] => by simp
  | e :: es => List.forall_mem_cons.2 ⟨e.phrase_draft hw, Expr.phrase_drafts hw es⟩

theorem Expr.filler_draftOption (hw : w.Settled) :
    ∀ e : Option Expr, ∀ part ∈ Expr.draftOption s e, Filler w part
  | none => by simp [Expr.draftOption]
  | some e => by
    rintro _ ⟨⟩
    exact (e.phrase_draft hw).goesOn

theorem Query.block_draft (hw : w.Settled) : ∀ q : Query, Block w none (q.draft s)
  | ⟨body, orderBy, limit, lock⟩ => by
    rw [Query.draft]
    exact (((body.block_draft hw).append
      (.listClause (by decide) (OrderTerm.filler_draftEach hw orderBy))).append
      (Limit.block_draftOption hw limit)).append (.lock lock)

theorem OrderTerm.filler_draftEach (hw : w.Settled) :
    ∀ terms : List OrderTerm, ∀ part ∈ OrderTerm.draftEach s terms, Filler w part
  | [] => by simp [OrderTerm.draftEach]
  | ⟨e, direction⟩ :: terms => by
    refine List.forall_mem_cons.2 ⟨(e.phrase_draft hw).goesOn.append ?_,
      OrderTerm.filler_draftEach hw terms⟩
    cases direction with
    | none => exact .nil
    | some d => exact .text d.sql

theorem Limit.block_draftOption (hw : w.Settled) :
    ∀ limit : Option Limit, Block w none (Limit.draftOption s limit)
  | none => .nil
  | some ⟨count, offset⟩ => by
    refine .clause (by decide) ((count.phrase_draft hw).goesOn.append ?_)
    split
    · exact .nil
    · next d hd => exact .cons_text _ (Expr.filler_draftOption hw offset d hd)

theorem QueryBody.block_draft (hw : w.Settled) : ∀ body : QueryBody, Block w none (body.draft s)
  | .select select => select.block_draft hw
  | .setOp op operands => by
    rw [QueryBody.draft]
    split
    · exact .fault _
    · exact Query.block_draftOperands hw op true operands

theorem Query.block_draftOperands (hw : w.Settled) (op : SetOp) :
    ∀ (first : Bool) (operands : List Query), Block w none (Query.draftOperands s op first operands)
  | _, [] => .nil
  | first, ⟨body, orderBy, limit, lock⟩ :: operands => by
    have hword : Carries w none .margin [.text op.sql] .filled :=
      (Carries.text (by cases op <;> decide)).mono rfl rfl
    have hline : Carries w none .filled (clause []) .begun := (Carries.line rfl).mono rfl rfl
    have hop : Block w none (clause (.text op.sql :: clause [])) :=
      Carries.cons (.line rfl) (.cons hword hline)
    have hscope : Block w none [.scope .operand (body.draft s)] := .scope (body.block_draft hw)
    exact (of_ite _ ((of_ite _ .nil hop).append hscope) (.fault _)).append
      (Query.block_draftOperands hw op false operands)

theorem Select.block_draft (hw : w.Settled) : ∀ select : Select, Block w none (select.draft s)
  | ⟨distinct, projection, tables, filter, groupBy, having, hints⟩ => by
    have hintroduce (labels : List TableLabel) : Block w none (labels.map .introduce) := by
      induction labels with
      | nil => exact .nil
      | cons t labels ih => exact Carries.cons (.introduce t) ih
    have hhints (applies : Bool) :
        Block w none (if applies then [] else [malformed .hintOutsideFrom]) :=
      of_ite _ .nil (.fault _)
    have hselect : Carries w none .begun [.text "SELECT"] .filled :=
      (Carries.text (by decide)).mono rfl rfl
    have hdistinct : Filler w (if distinct then [.text "DISTINCT"] else []) :=
      of_ite _ (.text _) .nil
    have hcolumns : Carries w none .filled
        [.group (commas .column (Projected.draftEach s projection))] .begun :=
      (Carries.group hw (Block.commas rfl fun part hpart =>
        (Projected.phrase_draftEach hw projection part hpart).block)).mono rfl rfl
    rw [Select.draft]
    refine of_ite _ (.fault _) ?_
    refine Block.append (.append (.append (.append (Carries.append (Carries.append
      (.append (.append (hintroduce _) (hhints _)) hselect) (hdistinct none)) hcolumns) ?_)
      ?_) ?_) ?_
    · exact of_ite _ (of_ite _ (.clause (by decide) .nil) .nil)
        (.clause (by decide) (.commas (JoinedTable.filler_draftEach hw hints tables)))
    · exact .optionalClause (by decide) (Expr.filler_draftOption hw filter)
    · exact .listClause (by decide) (Expr.filler_draftEach (Expr.phrase_drafts hw groupBy))
    · exact .optionalClause (by decide) (Expr.filler_draftOption hw having)

theorem Projected.phrase_draftEach (hw : w.Settled) :
    ∀ items : List Projected, ∀ part ∈ Projected.draftEach s items, Phrase w part
  | [] => by simp [Projected.draftEach]
  | ⟨e, label⟩ :: items =>
    List.forall_mem_cons.2
      ⟨(e.phrase_draft hw).projected label, Projected.phrase_draftEach hw items⟩

theorem JoinedTable.filler_draftEach (hw : w.Settled) (hints : List IndexHint) :
    ∀ tables : List JoinedTable, ∀ part ∈ JoinedTable.draftEach s hints tables, Filler w part
  | [] => by simp [JoinedTable.draftEach]
  | ⟨table, joins⟩ :: tables =>
    List.forall_mem_cons.2
      ⟨(table.filler_draft hw hints).append (Join.filler_draftAll hw hints joins),
        JoinedTable.filler_draftEach hw hints tables⟩

theorem Join.filler_draftAll (hw : w.Settled) (hints : List IndexHint) :
    ∀ joins : List Join, Filler w (Join.draftAll s hints joins)
  | [] => .nil
  | ⟨kind, table, constraint⟩ :: joins => by
    refine Filler.append ?_ (Join.filler_draftAll hw hints joins)
    split
    · next found hfault =>
      obtain ⟨cause, rfl⟩ := exists_of_joinFault? hfault
      exact fun _ => .fault cause
    · refine Filler.append (fun bare => ?_) ?_
      · exact ((table.filler_draft hw hints).clause (by cases kind <;> decide)).mono rfl rfl
      · split
        · exact .nil
        · next d hd => exact .cons_text _ (Expr.filler_draftOption hw constraint d hd)

theorem TableUse.filler_draft (hw : w.Settled) (hints : List IndexHint) :
    ∀ table : TableUse, Filler w (table.draft s hints)
  | .base id table requested =>
    (Filler.qualifiedName table).used ⟨id, some table.name, requested⟩ false hints
  | .derived id q =>
    (Phrase.enclosed hw (by decide) (q.block_draft hw)).goesOn.used ⟨id, none, none⟩ true hints

end

/-! ## Statements that change tables -/

def InsertSource.isQuery : InsertSource → Bool
  | .query _ => true
  | .values _ | .collection _ => false

/-- Whether the statement inserts the rows of a query. -/
def Statement.insertsQuery : Statement → Bool
  | .insert i => i.source.isQuery
  | .query _ | .update _ | .delete _ => false

theorem Statement.exists_of_insertsQuery {statement : Statement}
    (h : statement.insertsQuery = true) :
    ∃ i q, statement = .insert i ∧ i.source = .query q := by
  cases statement with
  | query q | update u | delete d => cases h
  | insert i =>
    have hquery : i.source.isQuery = true := h
    cases hsource : i.source with
    | query q => exact ⟨i, q, rfl, hsource⟩
    | values rows | collection key => simp [hsource, InsertSource.isQuery] at hquery

theorem InsertSource.block_draft (hw : w.Settled) (width : Nat) (source : InsertSource)
    (hquery : source.isQuery = false) : Block w none (source.draft s width) := by
  cases source with
  | values rows =>
    have hrow : ∀ part ∈ rows.map fun row => parens (commas .other (Expr.draftEach s row)),
        Block w none part := by
      refine List.forall_mem_map.2 fun row _ => ?_
      exact (Phrase.parens (.commas (Expr.filler_draftEach (Expr.phrase_drafts hw row)))).block
    have hvalues : Carries w none .margin [.text "VALUES"] .begun :=
      (Carries.text (by decide)).mono rfl rfl
    simp only [InsertSource.draft]
    refine of_ite _ (.fault _) ?_
    split
    · exact .fault _
    · exact Carries.cons (.line rfl) (.cons hvalues (Block.commas rfl hrow))
  | query q => cases hquery
  | collection key =>
    have hcells : ∀ part ∈ (List.range width).map fun index => [Draft.cell index],
        Filler w part :=
      List.forall_mem_map.2 fun index _ _ => (Carries.cell index).mono rfl rfl
    have hnulls : ∀ part ∈ List.replicate width [Draft.text "NULL"], Filler w part := by
      intro part hpart
      rw [List.eq_of_mem_replicate hpart]
      exact .text _
    have heach : Phrase w [.each key (.text "SELECT" :: commas .other
        ((List.range width).map fun index => [Draft.cell index]))
        (.text "SELECT" :: commas .other (List.replicate width [Draft.text "NULL"]) ++ noRows s)
        " UNION ALL "] :=
      .each (.lead (by decide) (.commas hcells))
        (.lead (by decide) ((Filler.commas hnulls).append .noRows))
    exact Carries.cons (.line rfl) (heach.begins.mono rfl rfl)

/-- What stands before the rows of an insert. -/
def Insert.opening (s : Spelling) (i : Insert) : List Draft :=
  .text "INSERT INTO" :: qualifiedName s i.table ++
    parens (commas .other (i.columns.map fun c => [ident s c]))

theorem Insert.carries_opening (i : Insert) : Carries w none .loose (i.opening s) .filled :=
  ((Filler.qualifiedName i.table).append (Phrase.parens (.commas (.idents i.columns))).goesOn).lead
    (by decide)

/-- A statement that changes a table begins with a word and the table. -/
theorem TableUse.carries_draftTarget (hw : w.Settled) (target : TableUse) {word : String}
    (hword : word ≠ "") {ds : List Draft} (h : ∀ bare, Block w bare ds) :
    Carries w none .margin (target.draftTarget (.text word :: target.draft s [] ++ ds)) .begun := by
  cases target with
  | base id table requested =>
    refine .scope (Carries.append ?_ (h _))
    exact ((TableUse.filler_draft hw [] _).lead hword).mono rfl rfl
  | derived id q => exact .fault _

theorem Update.carries_draft (hw : w.Settled) (u : Update) :
    Carries w none .margin (u.draft s) .begun := by
  have hassignments : ∀ part ∈ u.assignments.map (·.draft s), Filler w part :=
    List.forall_mem_map.2 fun assignment _ =>
      .cons_text _ (.cons_text _ (assignment.expr.phrase_draft hw).goesOn)
  refine of_ite (S := fun ds => Carries w none .margin ds .begun) _ (.fault _) ?_
  rw [List.append_assoc, List.append_assoc]
  refine u.target.carries_draftTarget hw (by decide) fun bare => ?_
  exact (Block.listClause (by decide) hassignments).append
    ((Block.optionalClause (by decide) (Expr.filler_draftOption hw u.filter)).append
      (.returning fun part hpart => (Projected.phrase_draftEach hw u.returning part hpart).goesOn))

theorem Delete.carries_draft (hw : w.Settled) (d : Delete) :
    Carries w none .margin (d.draft s) .begun := by
  rw [Delete.draft, List.append_assoc]
  refine d.target.carries_draftTarget hw (by decide) fun bare => ?_
  exact (Block.optionalClause (by decide) (Expr.filler_draftOption hw d.filter)).append
    (.returning fun part hpart => (Projected.phrase_draftEach hw d.returning part hpart).goesOn)

/-- A statement that does not insert from a query begins on an empty line and leaves one that was
begun. -/
theorem Statement.carries_draft (hw : w.Settled) (statement : Statement)
    (hquery : statement.insertsQuery = false) :
    Carries w none .margin (statement.draft s) .begun := by
  cases statement with
  | query q => exact (q.block_draft hw).mono rfl rfl
  | insert i =>
    refine of_ite (S := fun ds => Carries w none .margin ds .begun) _ (.fault _) ?_
    exact ((i.carries_opening.mono rfl rfl).append (i.source.block_draft hw _ hquery)).append
      (Block.returning (.idents i.returning))
  | update u => exact u.carries_draft hw
  | delete d => exact d.carries_draft hw

/-! ## Inserting from a query -/

/-- Drafts that have to do with no table are written as single fragments. -/
theorem Draft.isLeaf_of_isPlain {q : QuoteMark} {bare : Option TableId} {ns ns' : Names}
    {ds : List Draft} {fs : List Fragment} (hr : Resolves q bare ns ds fs ns')
    (h : ∀ d ∈ ds, d.isPlain = true) : ∀ f ∈ fs, f.isLeaf = true := by
  induction hr with
  | nil => simp
  | text _ _ ih | delimiter _ _ _ ih | hole _ _ _ ih | param _ _ ih | cell _ _ ih =>
    exact List.forall_mem_cons.2 ⟨rfl, ih (List.forall_mem_cons.1 h).2⟩
  | _ => cases (List.forall_mem_cons.1 h).1

theorem Insert.isPlain_opening (i : Insert) : ∀ d ∈ i.opening s, d.isPlain = true := by
  have hnil : ∀ d ∈ ([] : List Draft), d.isPlain = true := nofun
  have happend {ds es : List Draft} (hds : ∀ d ∈ ds, d.isPlain = true)
      (hes : ∀ d ∈ es, d.isPlain = true) : ∀ d ∈ ds ++ es, d.isPlain = true :=
    List.forall_mem_append.2 ⟨hds, hes⟩
  have hsingle {d : Draft} (hd : d.isPlain = true) : ∀ d' ∈ [d], d'.isPlain = true :=
    List.forall_mem_singleton.2 hd
  have hname : ∀ d ∈ qualifiedName s i.table, d.isPlain = true := by
    refine happend ?_ (hsingle rfl)
    cases i.table.schema with
    | none => exact hnil
    | some schema =>
      refine of_ite (S := fun ds => ∀ d ∈ ds, d.isPlain = true) _ (happend ?_ (hsingle rfl)) hnil
      exact of_ite (S := fun ds => ∀ d ∈ ds, d.isPlain = true) _
        (List.forall_mem_map.2 fun _ _ => rfl) hnil
  have hcolumns : ∀ d ∈ commas .other (i.columns.map fun c => [ident s c]), d.isPlain = true :=
    of_intercalate (S := fun ds => ∀ d ∈ ds, d.isPlain = true) hnil happend (hsingle rfl)
      (List.forall_mem_map.2 fun _ _ => hsingle rfl)
  exact happend (happend (hsingle rfl) hname) (happend (happend (hsingle rfl) hcolumns)
    (hsingle rfl))

/-- What an insert from a query is written as. -/
theorem Insert.resolves_inv {i : Insert} {q : Query} (hsource : i.source = .query q)
    {mark : QuoteMark} {ns ns' : Names} {fs : List Fragment}
    (hr : Resolves mark none ns (i.draft s) fs ns') :
    ∃ opening inner returning mid mid' mid'' last,
      fs = opening ++ [.delimiter "" .row, .group true inner] ++ returning ∧
      Resolves mark none ns (i.opening s) opening mid ∧
      Resolves mark none mid' (q.draft s) inner mid'' ∧
      Resolves mark none last (Draft.returning s (i.returning.map fun c => [ident s c]))
        returning ns' := by
  unfold Insert.draft at hr
  split at hr
  · cases hr
  · rw [hsource] at hr
    obtain ⟨_, _, returning, hfirst, hreturning, rfl⟩ := hr.append_inv
    obtain ⟨opening, _, _, hopening, hrows, rfl⟩ := hfirst.append_inv
    cases hrows with
    | delimiter _ _ hnested =>
      cases hnested with
      | scope _ hgroup hnil =>
        cases hnil
        cases hgroup with
        | group hinner hnil =>
          cases hnil
          exact ⟨opening, _, returning, _, _, _, _, rfl, hopening, hinner, hreturning⟩

/-- The first line of the query stands at the margin of the lines around it. -/
theorem Insert.stands_draft {i : Insert} {q : Query} (hsource : i.source = .query q)
    (spell : Marker → String) (a : Arguments) {mark : QuoteMark} {ns ns' : Names}
    {fs : List Fragment} (hr : Resolves mark none ns (i.draft s) fs ns') :
    Sheet.Stands true 0 .begun (PlacedStep.actAll true spell {}
      (Fragment.traceAll a mark none [] 0 fs)) := by
  obtain ⟨opening, inner, returning, _, _, _, _, rfl, hopening, hinner, hreturning⟩ :=
    resolves_inv hsource hr
  have hleaf := isLeaf_of_isPlain hopening i.isPlain_opening
  have hfs : Fragment.Carries ⟨true, false, spell, a, mark⟩ .margin opening .filled :=
    (i.carries_opening _ _ _ hopening).mono rfl rfl
  have hgs : Fragment.Carries ⟨true, true, spell, a, mark⟩ .begun inner .begun :=
    q.block_draft (fun _ => rfl) _ _ _ hinner
  have hlast : Fragment.Carries ⟨true, false, spell, a, mark⟩ .begun returning .begun :=
    Block.returning (.idents i.returning) _ _ _ hreturning
  rw [Fragment.traceAll_append, PlacedStep.actAll_append]
  exact hlast none [] _ _ nofun ((Fragment.stands_raised hleaf hfs hgs).mono rfl)

end PreparedSql
