import PreparedSql.Proofs.Draft.Composition
import PreparedSql.Proofs.Template.Condensing
import PreparedSql.Proofs.Template.Markers

/-!
# What statements need of their arguments

The needs of a statement are read off its tree: a value for every parameter, a text for every
inline key, a number for every type that is not an interface, and rows that are wide enough for
every use of a collection. Arguments that meet them fill whatever the statement is compiled to,
whichever branches the choices take.

Cells are taken from the row of the innermost repetition around them. A repetition stands
around its own cells only, and the operands inside it bring theirs along; so they are filled at
any row, and the recursion says so of every expression.
-/

namespace PreparedSql

/-- Something that a statement asks of its arguments. -/
inductive Need where
  | param (p : Param)
  | inline (key : Key)
  | typeId (t : EntityType)
  /-- At least so many cells in every row of a collection, if it has rows. -/
  | rows (key : Key) (width : Nat)
deriving DecidableEq, Repr

def Need.met (a : Arguments) : Need → Bool
  | .param p => (a.param p).isSome
  | .inline key => (a.inline key).isSome
  | .typeId t => t.interface || (a.typeId t).isSome
  | .rows key width => (a.rows key).all (width ≤ ·.length)

/-- Arguments that meet all of the needs. -/
def Arguments.meet (a : Arguments) (needs : List Need) : Bool := needs.all (·.met a)

/-- How many cells a test against a collection reads, given the number of its operands. -/
def CollectionTest.width : CollectionTest → Nat → Nat
  | .list, _ => 1
  | .disjunction, count => count

mutual

/-- What an expression needs, in both branches of choices and in all queries inside. -/
def Expr.needs : Expr → List Need
  | .value _ | .column _ _ => []
  | .param p => [.param p]
  | .inline key => [.inline key]
  | .typeId t => [.typeId t]
  | .and es | .or es | .call _ es | .record es => Expr.needsEach es
  | .not e | .isNull _ e => e.needs
  | .binary _ e e' | .like _ e e' | .choice _ e e' => e.needs ++ e'.needs
  | .inList e list => e.needs ++ Expr.needsEach list
  | .inQuery e q => e.needs ++ q.needs
  | .inCollection style es key => .rows key (style.width es.length) :: Expr.needsEach es
  | .existsRow _ q | .subquery q => q.needs
  | .count _ argument filter => Expr.needsOption argument ++ Expr.needsOption filter

def Expr.needsEach : List Expr → List Need
  | [] => []
  | e :: es => e.needs ++ Expr.needsEach es

def Expr.needsOption : Option Expr → List Need
  | none => []
  | some e => e.needs

def Query.needs : Query → List Need
  | ⟨body, orderBy, limit, _⟩ =>
    body.needs ++ OrderTerm.needsEach orderBy ++ Limit.needsOption limit

def OrderTerm.needsEach : List OrderTerm → List Need
  | [] => []
  | ⟨e, _⟩ :: terms => e.needs ++ OrderTerm.needsEach terms

def Limit.needsOption : Option Limit → List Need
  | none => []
  | some ⟨count, offset⟩ => count.needs ++ Expr.needsOption offset

def QueryBody.needs : QueryBody → List Need
  | .select select => select.needs
  | .setOp _ operands => Query.needsEach operands

def Query.needsEach : List Query → List Need
  | [] => []
  | ⟨body, orderBy, limit, _⟩ :: queries =>
    body.needs ++ OrderTerm.needsEach orderBy ++ Limit.needsOption limit ++ Query.needsEach queries

def Select.needs : Select → List Need
  | ⟨_, projection, tables, filter, groupBy, having, _⟩ =>
    Projected.needsEach projection ++ JoinedTable.needsEach tables ++ Expr.needsOption filter ++
      Expr.needsEach groupBy ++ Expr.needsOption having

def Projected.needsEach : List Projected → List Need
  | [] => []
  | ⟨e, _⟩ :: items => e.needs ++ Projected.needsEach items

def JoinedTable.needsEach : List JoinedTable → List Need
  | [] => []
  | ⟨table, joins⟩ :: tables => table.needs ++ Join.needsEach joins ++ JoinedTable.needsEach tables

def Join.needsEach : List Join → List Need
  | [] => []
  | ⟨_, table, constraint⟩ :: joins =>
    table.needs ++ Expr.needsOption constraint ++ Join.needsEach joins

def TableUse.needs : TableUse → List Need
  | .base _ _ _ => []
  | .derived _ q => q.needs

end

def InsertSource.needs (width : Nat) : InsertSource → List Need
  | .values rows => rows.flatMap Expr.needsEach
  | .query q => q.needs
  | .collection key => [.rows key width]

def Statement.needs : Statement → List Need
  | .query q => q.needs
  | .insert i => i.source.needs i.columns.length
  | .update u =>
    u.target.needs ++ u.assignments.flatMap (·.expr.needs) ++ Expr.needsOption u.filter ++
      Projected.needsEach u.returning
  | .delete d => d.target.needs ++ Expr.needsOption d.filter ++ Projected.needsEach d.returning

namespace Arguments

variable {a : Arguments} {needs more : List Need}

@[simp] theorem meet_append :
    a.meet (needs ++ more) = true ↔ a.meet needs = true ∧ a.meet more = true := by
  simp [meet]

@[simp] theorem meet_cons {need : Need} :
    a.meet (need :: needs) = true ↔ need.met a = true ∧ a.meet needs = true := by
  simp [meet]

theorem meet_of_mem_flatMap {α : Type} {xs : List α} {f : α → List Need} {x : α}
    (h : a.meet (xs.flatMap f) = true) (hx : x ∈ xs) : a.meet (f x) = true := by
  simp only [meet, List.all_eq_true, List.mem_flatMap] at h ⊢
  exact fun need hneed => h need ⟨x, hx, hneed⟩

end Arguments

/-! ## Drafts that are filled -/

namespace Draft

/-- However the draft is written, nothing is missing in an execution that is at the row. -/
def Supplied (a : Arguments) (row : Option RowAt) (ds : List Draft) : Prop :=
  ∀ q steps, Written q a row ds steps → Complete steps

section Supplied

variable {a : Arguments} {row : Option RowAt} {ds : List Draft} {key : Key}

theorem compositional_supplied (a : Arguments) (row : Option RowAt) :
    Compositional (Supplied a row) where
  nil _ _ h := by simp [h.nil]
  append hds hes _ _ h := by
    obtain ⟨first, rest, hfirst, hrest, rfl⟩ := h.append
    exact complete_append.2 ⟨hds _ _ hfirst, hes _ _ hrest⟩
  text s _ _ h := by simp [h.text, Step.missing?]
  delimiter s kind _ _ h := by simp [h.delimiter, Step.missing?]
  qualifier {hole unnamed} hqualifies _ _ h := by
    rw [h.hole]
    cases hole <;> simp_all [Hole.qualifies, Hole.step, Step.missing?]
  column t name _ _ h := by
    obtain ⟨s, -, rfl⟩ := h.column
    simp [Step.missing?]
  introduce t _ _ h := by simp [h.introduce]
  tableName t _ _ h := by
    rcases h.tableName with rfl | ⟨name, rfl⟩ <;> simp [Step.missing?]
  group hds _ _ h := by
    obtain ⟨inner, hinner, rfl⟩ := h.group
    simp [Step.missing?, hds _ _ hinner]
  scope hds _ _ h := hds _ _ h.scope
  choice {key main alternative} hmain halternative _ _ h := by
    obtain ⟨inner, hinner, rfl⟩ := h.choice
    split at hinner
    · simp [Step.missing?, halternative _ _ hinner]
    · simp [Step.missing?, hmain _ _ hinner]
  fault cause _ _ h := h.fault.elim

theorem supplied_param {p : Param} (h : (a.param p).isSome = true) :
    Supplied a row [.param p] := by
  intro q steps hw
  obtain ⟨v, hv⟩ := Option.isSome_iff_exists.1 h
  obtain ⟨name, rfl⟩ := hw.param
  simp [Hole.step, hv, Step.missing?]

theorem supplied_inline (h : (a.inline key).isSome = true) :
    Supplied a row [.hole (.inline key) rfl] := by
  intro q steps hw
  obtain ⟨s, hs⟩ := Option.isSome_iff_exists.1 h
  simp [hw.hole, Hole.step, hs, Step.missing?]

/-- A type without a number is filled if it is an interface. -/
theorem supplied_typeId {t : EntityType} (h : (t.interface || (a.typeId t).isSome) = true) :
    Supplied a row [.hole (.typeId t) rfl] := by
  intro q steps hw
  rw [hw.hole]
  cases hnumber : a.typeId t with
  | some number => simp [Hole.step, hnumber, Step.missing?]
  | none =>
    have hinterface : t.interface = true := by simpa [hnumber] using h
    simp [Hole.step, hnumber, hinterface, Step.missing?]

theorem supplied_cell {r : RowAt} {index : Nat} (h : index < r.cells.length) :
    Supplied a (some r) [.cell index] := by
  intro q steps hw
  rw [hw.cell]
  cases hcell : r.cells[index] <;> simp [RowAt.step, h, hcell, Step.missing?]

/-- A repetition is filled if its body is filled at every row of its own collection. -/
theorem supplied_each {body empty : List Draft} {between : String} {width : Nat}
    (hrows : (Need.rows key width).met a = true)
    (hbody : ∀ r : RowAt, width ≤ r.cells.length → Supplied a (some r) body)
    (hempty : Supplied a row empty) : Supplied a row [.each key body empty between] := by
  intro q steps hw
  cases hkey : a.rows key with
  | nil =>
    obtain ⟨inner, hinner, rfl⟩ := hw.each_nil hkey
    simp [Step.missing?, hempty _ _ hinner]
  | cons first rest =>
    obtain ⟨inner, hinner, rfl⟩ := hw.each_rows (by simp [hkey])
    have hrow (index : Nat) (cells : List Cell) (hcells : (a.rows key)[index]? = some cells) :
        Complete (.fresh :: inner index cells) := by
      have hwidth : width ≤ cells.length := by
        simpa using List.all_eq_true.1 hrows cells (List.mem_of_getElem? hcells)
      simp [Step.missing?, hbody ⟨key, index, cells⟩ hwidth _ _ (hinner index cells)]
    have hinner : Complete (List.intercalate [.write between]
        ((a.rows key).mapIdx fun index cells => .fresh :: inner index cells)) :=
      intercalate_mapIdx_pred (fun h h' => by simp [h, h', Step.missing?]) (by simp [hkey]) hrow
    simp [Step.missing?, hinner]

/-- The operands stand inside the repetition, where they have to be filled at its rows. -/
theorem supplied_collectionTest {s : Spelling} (style : CollectionTest) {es : List Expr}
    {parts : List (List Draft)} (hrows : (Need.rows key (style.width es.length)).met a = true)
    (h : ∀ row, ∀ part ∈ parts, Supplied a row part) :
    Supplied a row (collectionTest s style key es parts) := by
  have hS (row : Option RowAt) := compositional_supplied a row
  unfold collectionTest
  split
  · next e d =>
    have heach : Supplied a row [.each key [.cell 0] (.text "SELECT NULL" :: noRows s) ", "] :=
      supplied_each hrows (fun r hwidth => supplied_cell hwidth)
        ((hS row).cons_text _ ((hS row).noRows s))
    exact (hS row).append ((hS row).operand e (h row d (List.mem_singleton_self d)))
      ((hS row).bracket "IN (" heach)
  · exact (hS row).fault _
  · exact (hS row).fault _
  · refine supplied_each hrows (fun r hwidth => ?_) ((hS row).text _)
    refine (hS (some r)).words "AND" fun part hpart => ?_
    obtain ⟨index, hindex, rfl⟩ := List.getElem_of_mem hpart
    have hlengths : index < es.length ∧ index < parts.length := by
      simpa [Nat.lt_min] using hindex
    rw [List.getElem_mapIdx, List.getElem_zipWith]
    have hoperand := (hS (some r)).operand es[index]
      (h (some r) parts[index] (List.getElem_mem hlengths.2))
    have hcell : Supplied a (some r) [.cell index] :=
      supplied_cell (Nat.lt_of_lt_of_le hlengths.1 hwidth)
    exact (hS (some r)).append hoperand ((hS (some r)).cons_text "=" hcell)

end Supplied

end Draft

open Draft

/-! ## Statements that are filled -/

section Statements

variable {s : Spelling} {a : Arguments} {row : Option RowAt}

mutual

/-- An expression whose needs are met is filled at any row. -/
theorem Expr.supplied_draft : ∀ (e : Expr) (row : Option RowAt), a.meet e.needs = true →
    Supplied a row (e.draft s)
  | .value v, row, _ => (compositional_supplied a row).literal s v
  | .column t name, row, _ => (compositional_supplied a row).column t name
  | .param p, row, h => supplied_param (Arguments.meet_cons.1 h).1
  | .inline key, row, h => supplied_inline (Arguments.meet_cons.1 h).1
  | .typeId t, row, h => supplied_typeId (Arguments.meet_cons.1 h).1
  | .and es, row, h =>
    (compositional_supplied a row).conjunction es (Expr.supplied_draftEach es row h)
  | .or es, row, h => (compositional_supplied a row).disjunction (Expr.supplied_draftEach es row h)
  | .not e, row, h => (compositional_supplied a row).bracket _ (e.supplied_draft row h)
  | .binary op lhs rhs, row, h => by
    obtain ⟨hlhs, hrhs⟩ := Arguments.meet_append.1 h
    exact (compositional_supplied a row).comparison op lhs rhs (lhs.supplied_draft row hlhs)
      (rhs.supplied_draft row hrhs)
  | .isNull negated e, row, h =>
    have hS := compositional_supplied a row
    hS.append (hS.operand e (e.supplied_draft row h)) (hS.text _)
  | .like negated e pattern, row, h => by
    obtain ⟨he, hpattern⟩ := Arguments.meet_append.1 h
    have hS := compositional_supplied a row
    exact hS.append (hS.operand e (e.supplied_draft row he))
      (hS.cons_text _ (hS.operand pattern (pattern.supplied_draft row hpattern)))
  | .inList e list, row, h => by
    obtain ⟨he, hlist⟩ := Arguments.meet_append.1 h
    exact (compositional_supplied a row).membership e (e.supplied_draft row he)
      (Expr.supplied_draftEach list row hlist)
  | .inQuery e q, row, h => by
    obtain ⟨he, hq⟩ := Arguments.meet_append.1 h
    have hS := compositional_supplied a row
    exact hS.append (hS.operand e (e.supplied_draft row he))
      (hS.enclosed "IN (" (q.supplied_draft row hq))
  | .inCollection style es key, row, h => by
    obtain ⟨hrows, hes⟩ := Arguments.meet_cons.1 h
    exact supplied_collectionTest style hrows fun row => Expr.supplied_draftEach es row hes
  | .existsRow negated q, row, h =>
    (compositional_supplied a row).enclosed _ (q.supplied_draft row h)
  | .count distinct argument filter, row, h => by
    obtain ⟨hargument, hfilter⟩ := Arguments.meet_append.1 h
    exact (compositional_supplied a row).count s distinct
      (Expr.supplied_draftOption argument row hargument)
      (Expr.supplied_draftOption filter row hfilter)
  | .call name arguments, row, h =>
    have hS := compositional_supplied a row
    hS.bracket _ (hS.commas .other (Expr.supplied_draftEach arguments row h))
  | .record fields, row, h =>
    have hS := compositional_supplied a row
    hS.bracket _ (hS.commas .other (Expr.supplied_draftEach fields row h))
  | .subquery q, row, h => (compositional_supplied a row).enclosed _ (q.supplied_draft row h)
  | .choice key main alternative, row, h => by
    obtain ⟨hmain, halternative⟩ := Arguments.meet_append.1 h
    exact (compositional_supplied a row).choice (main.supplied_draft row hmain)
      (alternative.supplied_draft row halternative)

theorem Expr.supplied_draftEach : ∀ (es : List Expr) (row : Option RowAt),
    a.meet (Expr.needsEach es) = true → ∀ part ∈ Expr.draftEach s es, Supplied a row part
  | [], _, _ => by simp [Expr.draftEach]
  | e :: es, row, h => by
    obtain ⟨he, hes⟩ := Arguments.meet_append.1 h
    exact List.forall_mem_cons.2 ⟨e.supplied_draft row he, Expr.supplied_draftEach es row hes⟩

theorem Expr.supplied_draftOption : ∀ (e : Option Expr) (row : Option RowAt),
    a.meet (Expr.needsOption e) = true → ∀ part ∈ Expr.draftOption s e, Supplied a row part
  | none, _, _ => by simp [Expr.draftOption]
  | some e, row, h => by
    rintro _ ⟨⟩
    exact e.supplied_draft row h

theorem Query.supplied_draft : ∀ (q : Query) (row : Option RowAt), a.meet q.needs = true →
    Supplied a row (q.draft s)
  | ⟨body, orderBy, limit, lock⟩, row, h => by
    simp only [Query.needs, Arguments.meet_append] at h
    obtain ⟨⟨hbody, horderBy⟩, hlimit⟩ := h
    have hS := compositional_supplied a row
    rw [Query.draft]
    repeat' refine hS.append ?_ ?_
    · exact body.supplied_draft row hbody
    · exact hS.listClause _ (OrderTerm.supplied_draftEach orderBy row horderBy)
    · exact Limit.supplied_draftOption limit row hlimit
    · exact hS.lock s lock

theorem OrderTerm.supplied_draftEach : ∀ (terms : List OrderTerm) (row : Option RowAt),
    a.meet (OrderTerm.needsEach terms) = true →
      ∀ part ∈ OrderTerm.draftEach s terms, Supplied a row part
  | [], _, _ => by simp [OrderTerm.draftEach]
  | ⟨e, direction⟩ :: terms, row, h => by
    obtain ⟨he, hterms⟩ := Arguments.meet_append.1 h
    have hS := compositional_supplied a row
    refine List.forall_mem_cons.2 ⟨?_, OrderTerm.supplied_draftEach terms row hterms⟩
    refine hS.append (e.supplied_draft row he) ?_
    cases direction with
    | none => exact hS.nil
    | some d => exact hS.text _

theorem Limit.supplied_draftOption : ∀ (limit : Option Limit) (row : Option RowAt),
    a.meet (Limit.needsOption limit) = true → Supplied a row (Limit.draftOption s limit)
  | none, row, _ => (compositional_supplied a row).nil
  | some ⟨count, offset⟩, row, h => by
    obtain ⟨hcount, hoffset⟩ := Arguments.meet_append.1 h
    have hS := compositional_supplied a row
    refine hS.clause (hS.append (hS.cons_text _ (count.supplied_draft row hcount)) ?_)
    split
    · exact hS.nil
    · next d hd => exact hS.cons_text _ (Expr.supplied_draftOption offset row hoffset d hd)

theorem QueryBody.supplied_draft : ∀ (body : QueryBody) (row : Option RowAt),
    a.meet body.needs = true → Supplied a row (body.draft s)
  | .select select, row, h => select.supplied_draft row h
  | .setOp op operands, row, h => by
    rw [QueryBody.draft]
    split
    · exact (compositional_supplied a row).fault _
    · exact Query.supplied_draftOperands op true operands row h

theorem Query.supplied_draftOperands (op : SetOp) :
    ∀ (first : Bool) (operands : List Query) (row : Option RowAt),
      a.meet (Query.needsEach operands) = true →
        Supplied a row (Query.draftOperands s op first operands)
  | _, [], row, _ => (compositional_supplied a row).nil
  | first, ⟨body, orderBy, limit, lock⟩ :: operands, row, h => by
    simp only [Query.needsEach, Arguments.meet_append] at h
    obtain ⟨⟨⟨hbody, -⟩, -⟩, hoperands⟩ := h
    have hS := compositional_supplied a row
    refine hS.append (of_ite _ (hS.append (of_ite _ hS.nil ?_) ?_) (hS.fault _))
      (Query.supplied_draftOperands op false operands row hoperands)
    · exact hS.clause (hS.cons_text _ (hS.clause hS.nil))
    · exact hS.scope (body.supplied_draft row hbody)

theorem Select.supplied_draft : ∀ (select : Select) (row : Option RowAt),
    a.meet select.needs = true → Supplied a row (select.draft s)
  | ⟨distinct, projection, tables, filter, groupBy, having, hints⟩, row, h => by
    simp only [Select.needs, Arguments.meet_append] at h
    obtain ⟨⟨⟨⟨hprojection, htables⟩, hfilter⟩, hgroupBy⟩, hhaving⟩ := h
    have hS := compositional_supplied a row
    have hintroduce (labels : List TableLabel) : Supplied a row (labels.map .introduce) := by
      refine hS.of_each fun d hd => ?_
      obtain ⟨t, -, rfl⟩ := List.mem_map.1 hd
      exact hS.introduce t
    have hprojection := hS.group
      (hS.commas .column (Projected.supplied_draftEach projection row hprojection))
    have hfrom := hS.clause (hS.cons_text "FROM"
      (hS.commas .other (JoinedTable.supplied_draftEach hints tables row htables)))
    rw [Select.draft]
    refine of_ite _ (hS.fault _) ?_
    repeat' refine hS.append ?_ ?_
    · exact hintroduce _
    · exact of_ite _ hS.nil (hS.fault _)
    · exact hS.text _
    · exact of_ite _ (hS.text _) hS.nil
    · exact hprojection
    · exact of_ite _ (of_ite _ (hS.clause (hS.text _)) hS.nil) hfrom
    · exact hS.optionalClause _ (Expr.supplied_draftOption filter row hfilter)
    · exact hS.listClause _ (Expr.supplied_draftEach groupBy row hgroupBy)
    · exact hS.optionalClause _ (Expr.supplied_draftOption having row hhaving)

theorem Projected.supplied_draftEach : ∀ (items : List Projected) (row : Option RowAt),
    a.meet (Projected.needsEach items) = true →
      ∀ part ∈ Projected.draftEach s items, Supplied a row part
  | [], _, _ => by simp [Projected.draftEach]
  | ⟨e, label⟩ :: items, row, h => by
    obtain ⟨he, hitems⟩ := Arguments.meet_append.1 h
    exact List.forall_mem_cons.2
      ⟨(compositional_supplied a row).projected label (e.supplied_draft row he),
        Projected.supplied_draftEach items row hitems⟩

theorem JoinedTable.supplied_draftEach (hints : List IndexHint) :
    ∀ (tables : List JoinedTable) (row : Option RowAt),
      a.meet (JoinedTable.needsEach tables) = true →
        ∀ part ∈ JoinedTable.draftEach s hints tables, Supplied a row part
  | [], _, _ => by simp [JoinedTable.draftEach]
  | ⟨table, joins⟩ :: tables, row, h => by
    simp only [JoinedTable.needsEach, Arguments.meet_append] at h
    obtain ⟨⟨htable, hjoins⟩, htables⟩ := h
    exact List.forall_mem_cons.2
      ⟨(compositional_supplied a row).append (table.supplied_draft hints row htable)
        (Join.supplied_draftAll hints joins row hjoins),
        JoinedTable.supplied_draftEach hints tables row htables⟩

theorem Join.supplied_draftAll (hints : List IndexHint) :
    ∀ (joins : List Join) (row : Option RowAt), a.meet (Join.needsEach joins) = true →
      Supplied a row (Join.draftAll s hints joins)
  | [], row, _ => (compositional_supplied a row).nil
  | ⟨kind, table, constraint⟩ :: joins, row, h => by
    simp only [Join.needsEach, Arguments.meet_append] at h
    obtain ⟨⟨htable, hconstraint⟩, hjoins⟩ := h
    have hS := compositional_supplied a row
    refine hS.append (hS.join (hS.append ?_ ?_)) (Join.supplied_draftAll hints joins row hjoins)
    · exact hS.clause (hS.cons_text _ (table.supplied_draft hints row htable))
    · split
      · exact hS.nil
      · next d hd =>
        exact hS.cons_text _ (Expr.supplied_draftOption constraint row hconstraint d hd)

theorem TableUse.supplied_draft (hints : List IndexHint) :
    ∀ (table : TableUse) (row : Option RowAt), a.meet table.needs = true →
      Supplied a row (table.draft s hints)
  | .base id table _, row, _ =>
    have hS := compositional_supplied a row
    hS.append (hS.qualifiedName s table) (hS.cons (hS.tableName _) (hS.hintsOn s false hints id))
  | .derived id q, row, h =>
    have hS := compositional_supplied a row
    hS.append (hS.enclosed _ (q.supplied_draft row h))
      (hS.cons (hS.tableName _) (hS.hintsOn s true hints id))

end

theorem InsertSource.supplied_draft (width : Nat) (source : InsertSource)
    (h : a.meet (source.needs width) = true) : Supplied a row (source.draft s width) := by
  have hS (row : Option RowAt) := compositional_supplied a row
  cases source with
  | values rows =>
    simp only [InsertSource.draft]
    refine of_ite _ ((hS row).fault _) ?_
    split
    · exact (hS row).fault _
    · refine (hS row).clause ((hS row).cons_text _ ((hS row).commas .row fun part hpart => ?_))
      obtain ⟨es, hes, rfl⟩ := List.mem_map.1 hpart
      have hneeds : a.meet (Expr.needsEach es) = true := Arguments.meet_of_mem_flatMap h hes
      exact (hS row).bracket _ ((hS row).commas .other (Expr.supplied_draftEach es row hneeds))
  | query q => exact (hS row).clause ((hS row).scope ((hS row).group (q.supplied_draft row h)))
  | collection key =>
    refine (hS row).clause (supplied_each (Arguments.meet_cons.1 h).1 (fun r hwidth => ?_) ?_)
    · refine (hS (some r)).cons_text _ ((hS (some r)).commas .other fun part hpart => ?_)
      obtain ⟨index, hindex, rfl⟩ := List.mem_map.1 hpart
      exact supplied_cell (Nat.lt_of_lt_of_le (List.mem_range.1 hindex) hwidth)
    · refine (hS row).append ((hS row).cons_text _ ((hS row).commas .other fun part hpart => ?_))
        ((hS row).noRows s)
      rw [List.eq_of_mem_replicate hpart]
      exact (hS row).text "NULL"

theorem supplied_idents (names : List String) :
    ∀ part ∈ names.map fun name => [ident s name], Supplied a row part := by
  intro part hpart
  obtain ⟨name, -, rfl⟩ := List.mem_map.1 hpart
  exact (compositional_supplied a row).text _

theorem Insert.supplied_draft (i : Insert)
    (h : a.meet (i.source.needs i.columns.length) = true) : Supplied a row (i.draft s) := by
  have hS := compositional_supplied a row
  have hcolumns : Supplied a row (parens (commas .other (i.columns.map fun c => [ident s c]))) :=
    hS.bracket _ (hS.commas .other (supplied_idents i.columns))
  refine of_ite _ (hS.fault _) (hS.append (hS.append (hS.append ?_ hcolumns) ?_) ?_)
  · exact hS.cons_text _ (hS.qualifiedName s i.table)
  · exact i.source.supplied_draft _ h
  · exact hS.returning (supplied_idents i.returning)

theorem TableUse.supplied_draftTarget (target : TableUse) {ds : List Draft}
    (h : Supplied a row ds) : Supplied a row (target.draftTarget ds) := by
  cases target with
  | base id table requested => exact (compositional_supplied a row).scope h
  | derived id q => exact (compositional_supplied a row).fault _

/-- A statement whose needs are met is filled. -/
theorem Statement.supplied_draft (statement : Statement) (h : a.meet statement.needs = true) :
    Supplied a row (statement.draft s) := by
  have hS := compositional_supplied a row
  cases statement with
  | query q => exact q.supplied_draft row h
  | insert i => exact i.supplied_draft h
  | update u =>
    simp only [Statement.needs, Arguments.meet_append] at h
    obtain ⟨⟨⟨htarget, hassignments⟩, hfilter⟩, hreturning⟩ := h
    have hassigned : ∀ part ∈ u.assignments.map (·.draft s), Supplied a row part := by
      intro part hpart
      obtain ⟨x, hx, rfl⟩ := List.mem_map.1 hpart
      have hneeds := Arguments.meet_of_mem_flatMap hassignments hx
      exact hS.cons (hS.text _) (hS.cons_text _ (x.expr.supplied_draft row hneeds))
    refine of_ite _ (hS.fault _) (u.target.supplied_draftTarget ?_)
    repeat' refine hS.append ?_ ?_
    · exact hS.cons_text _ (u.target.supplied_draft [] row htarget)
    · exact hS.listClause _ hassigned
    · exact hS.optionalClause _ (Expr.supplied_draftOption u.filter row hfilter)
    · exact hS.returning (Projected.supplied_draftEach u.returning row hreturning)
  | delete d =>
    simp only [Statement.needs, Arguments.meet_append] at h
    obtain ⟨⟨htarget, hfilter⟩, hreturning⟩ := h
    refine d.target.supplied_draftTarget ?_
    repeat' refine hS.append ?_ ?_
    · exact hS.cons_text _ (d.target.supplied_draft [] row htarget)
    · exact hS.optionalClause _ (Expr.supplied_draftOption d.filter row hfilter)
    · exact hS.returning (Projected.supplied_draftEach d.returning row hreturning)

end Statements

namespace Compiler

variable {c : Compiler} {statement : Statement} {t : Template} {a : Arguments}

/-- Arguments that meet the needs of a statement fill its template, compiled or prepared,
whatever else they say. -/
theorem fill_of_needs_met (h : c.compile statement = .ok t) (ha : a.meet statement.needs = true) :
    (∃ sql, t.fill a = .ok sql) ∧
      ∃ prepared, c.prepare statement = .ok prepared ∧ ∃ sql, prepared.fill a = .ok sql := by
  obtain ⟨ns, hresolves⟩ := resolves_of_compile h
  have hcomplete : Complete (t.steps a) := by
    rw [Template.steps, format_of_compile h]
    exact statement.supplied_draft ha _ _ ⟨_, _, _, _, hresolves, rfl⟩
  have hmissing : (t.steps a).findSome? Step.missing? = none :=
    List.findSome?_eq_none_iff.2 hcomplete
  have hprepare : c.prepare statement = .ok t.condense := by rw [prepare, h]; rfl
  have hprepared := (Template.missing_condense t a).trans hmissing
  exact ⟨⟨_, Template.fill_of_complete hmissing⟩, t.condense, hprepare, _,
    Template.fill_of_complete hprepared⟩

/-- A test against one collection in a query that is an operand of a test against another. The
inner one reads the only cell of its own rows, whatever the width of the rows around it. -/
theorem fill_of_needs_met_nested :
    let c : Compiler := ⟨.mysql, { quoteNames := false }⟩
    let inner : Query := .ofBody (.select
      { Select.empty with
        projection := [⟨.inline "column", none⟩]
        filter := some (.inCollection .list [.param ⟨0⟩] "ids") })
    let statement : Statement := .query (.ofBody (.select
      { Select.empty with
        projection := [⟨.typeId ⟨0, "party", true⟩, none⟩]
        filter := some (.inCollection .disjunction
          [.subquery inner, .choice "k" (.param ⟨1⟩) (.value .null)] "pairs") }))
    let a : Arguments :=
      { param := fun _ => some (.int32 5)
        inline := fun _ => some "7"
        rows := fun key =>
          if key = "ids" then [[.inline "1"], [.inline "2"]] else [[.inline "3", .value .null]] }
    a.meet statement.needs = true ∧ ∃ t, c.compile statement = .ok t ∧
      (∃ sql, t.fill a = .ok sql) ∧
        ∃ prepared, c.prepare statement = .ok prepared ∧ ∃ sql, prepared.fill a = .ok sql := by
  intro c inner statement a
  have hmet : a.meet statement.needs = true := by decide +kernel
  obtain ⟨t, ht, -⟩ := Draft.exists_ok_of_any (x := c.compile statement) (P := fun _ => True)
    (by decide +kernel)
  exact ⟨hmet, t, ht, fill_of_needs_met ht hmet⟩

end Compiler

end PreparedSql
