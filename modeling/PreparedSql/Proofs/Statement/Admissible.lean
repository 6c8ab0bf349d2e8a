import PreparedSql.Proofs.Draft.Faults
import PreparedSql.Proofs.Statement.References

/-!
# Which statements compile

A statement is admissible in a dialect if it is well formed wherever it is written and its
columns refer to tables that are listed around them. Being well formed has nothing to do with
tables in scope: every clause is looked at by itself, in both branches of choices and in all
queries inside. Only what is not written, the operand of a test against an empty list, is left
out.

The compiler accepts exactly the admissible statements, whatever the options.
-/

namespace PreparedSql

/-! ## Well-formed statements -/

/-- Infinities and not-a-numbers cannot be written. -/
def Value.isFinite : Value → Bool
  | .double x => x.isFinite
  | _ => true

/-- How many expressions may be tested against a collection. -/
def CollectionTest.takes : CollectionTest → Nat → Bool
  | .list, count => count == 1
  | .disjunction, count => count != 0

/-- A cross join has no constraint and all others have one. Full joins are not written in
every dialect. -/
def JoinKind.fits (d : Dialect) (kind : JoinKind) (constrained : Bool) : Bool :=
  constrained == (kind != .cross) && (kind != .full || d.features.fullOuterJoin)

def TableUse.isBase : TableUse → Bool
  | .base _ _ _ => true
  | .derived _ _ => false

/-- The tables of a `FROM` clause. -/
def Select.uses (select : Select) : List TableUse :=
  select.tables.flatMap fun t => t.table :: t.joins.map (·.table)

/-- A hint names a base table among those that are read, in a dialect that has hints. -/
def IndexHint.applies (d : Dialect) (uses : List TableUse) (h : IndexHint) : Bool :=
  d.features.indexHints != .unsupported && uses.any (·.id == h.table) &&
    uses.all fun t => t.id != h.table || t.isBase

section WellFormed

variable (d : Dialect)

mutual

/-- An expression that can be written wherever its columns are in scope. -/
def Expr.wellFormed : Expr → Bool
  | .value v => v.isFinite
  | .column _ _ | .param _ | .inline _ | .typeId _ => true
  | .and es | .or es | .call _ es | .record es => Expr.wellFormedEach es
  | .not e | .isNull _ e => e.wellFormed
  | .binary _ e e' | .like _ e e' | .choice _ e e' => e.wellFormed && e'.wellFormed
  | .inList e list => list.isEmpty || (e.wellFormed && Expr.wellFormedEach list)
  | .inQuery e q => e.wellFormed && q.wellFormed
  | .inCollection style es _ => style.takes es.length && Expr.wellFormedEach es
  | .existsRow _ q | .subquery q => q.wellFormed
  | .count distinct argument filter =>
    (!distinct || argument.isSome) && Expr.wellFormedOption argument &&
      Expr.wellFormedOption filter

def Expr.wellFormedEach : List Expr → Bool
  | [] => true
  | e :: es => e.wellFormed && Expr.wellFormedEach es

def Expr.wellFormedOption : Option Expr → Bool
  | none => true
  | some e => e.wellFormed

def Query.wellFormed : Query → Bool
  | ⟨body, orderBy, limit, lock⟩ =>
    body.wellFormed && OrderTerm.wellFormedEach orderBy && Limit.wellFormedOption limit &&
      (lock.isNone || d.features.selectForUpdate)

def OrderTerm.wellFormedEach : List OrderTerm → Bool
  | [] => true
  | ⟨e, _⟩ :: terms => e.wellFormed && OrderTerm.wellFormedEach terms

def Limit.wellFormedOption : Option Limit → Bool
  | none => true
  | some ⟨count, offset⟩ => count.wellFormed && Expr.wellFormedOption offset

def QueryBody.wellFormed : QueryBody → Bool
  | .select select => select.wellFormed
  | .setOp _ operands => 2 ≤ operands.length && Query.wellFormedOperands operands

/-- The clauses of an operand would come to apply to the whole. -/
def Query.wellFormedOperands : List Query → Bool
  | [] => true
  | ⟨body, orderBy, limit, lock⟩ :: operands =>
    orderBy.isEmpty && limit.isNone && lock.isNone && body.wellFormed &&
      Query.wellFormedOperands operands

def Select.wellFormed : Select → Bool
  | select@⟨_, projection, tables, filter, groupBy, having, hints⟩ =>
    !projection.isEmpty && hints.all (·.applies d select.uses) &&
      Projected.wellFormedEach projection && JoinedTable.wellFormedEach tables &&
      Expr.wellFormedOption filter && Expr.wellFormedEach groupBy && Expr.wellFormedOption having

def Projected.wellFormedEach : List Projected → Bool
  | [] => true
  | ⟨e, _⟩ :: items => e.wellFormed && Projected.wellFormedEach items

def JoinedTable.wellFormedEach : List JoinedTable → Bool
  | [] => true
  | ⟨table, joins⟩ :: tables =>
    table.wellFormed && Join.wellFormedAll joins && JoinedTable.wellFormedEach tables

def Join.wellFormedAll : List Join → Bool
  | [] => true
  | ⟨kind, table, constraint⟩ :: joins =>
    kind.fits d constraint.isSome && table.wellFormed && Expr.wellFormedOption constraint &&
      Join.wellFormedAll joins

def TableUse.wellFormed : TableUse → Bool
  | .base _ _ _ => true
  | .derived _ q => q.wellFormed

end

def InsertSource.wellFormed (width : Nat) : InsertSource → Bool
  | .values rows =>
    !rows.isEmpty && rows.all (·.length == width) && rows.all (Expr.wellFormedEach d)
  | .query q => q.wellFormed d
  | .collection _ => true

def Insert.wellFormed (i : Insert) : Bool :=
  !i.columns.isEmpty && i.source.wellFormed d i.columns.length &&
    (i.returning.isEmpty || d.features.returning)

def Update.wellFormed (u : Update) : Bool :=
  !u.assignments.isEmpty && u.target.isBase && u.assignments.all (·.expr.wellFormed d) &&
    Expr.wellFormedOption d u.filter && Projected.wellFormedEach d u.returning &&
    (u.returning.isEmpty || d.features.returning)

def Delete.wellFormed (x : Delete) : Bool :=
  x.target.isBase && Expr.wellFormedOption d x.filter && Projected.wellFormedEach d x.returning &&
    (x.returning.isEmpty || d.features.returning)

def Statement.wellFormed : Statement → Bool
  | .query q => q.wellFormed d
  | .insert i => i.wellFormed d
  | .update u => u.wellFormed d
  | .delete x => x.wellFormed d

end WellFormed

/-- A statement that is well formed and whose columns refer to tables listed around them. -/
def Statement.admissible (s : Spelling) (statement : Statement) : Bool :=
  statement.wellFormed s.dialect && (statement.sites s).all Site.inScope

/-! ## Faults in the parts of statements -/

namespace Draft

section Clauses

variable {s : Spelling} {ds : List Draft} {parts : List (List Draft)}

theorem faultless_literal (v : Value) : (literal s v).faultless = v.isFinite := by
  unfold literal
  cases v with
  | double x =>
    cases hx : x.isFinite <;> simp [Value.literal, Value.isFinite, hx] <;> rfl
  | _ => rfl

@[simp] theorem faultlessAll_clause (ds : List Draft) :
    faultlessAll (clause ds) = faultlessAll ds := rfl

@[simp] theorem faultlessAll_bracket (opening : String) (ds : List Draft) :
    faultlessAll (.text opening :: ds ++ [.text ")"]) = faultlessAll ds := by
  simp [faultless]

@[simp] theorem faultlessAll_parensIf (b : Bool) (ds : List Draft) :
    faultlessAll (parensIf b ds) = faultlessAll ds := by
  cases b with
  | false => rfl
  | true => exact faultlessAll_bracket "(" ds

@[simp] theorem faultlessAll_operand (e : Expr) (ds : List Draft) :
    faultlessAll (operand e ds) = faultlessAll ds := faultlessAll_parensIf _ ds

@[simp] theorem faultlessAll_commas (kind : DelimiterKind) (parts : List (List Draft)) :
    faultlessAll (commas kind parts) = parts.all faultlessAll :=
  faultlessAll_intercalate rfl parts

@[simp] theorem faultlessAll_words (word : String) (parts : List (List Draft)) :
    faultlessAll (words word parts) = parts.all faultlessAll :=
  faultlessAll_intercalate rfl parts

theorem all_zipWith_parensIf {bs : List Bool} (h : bs.length = parts.length) :
    (List.zipWith parensIf bs parts).all faultlessAll = parts.all faultlessAll := by
  induction bs generalizing parts with
  | nil =>
    rw [List.length_eq_zero_iff.1 h.symm]
    rfl
  | cons b bs ih =>
    cases parts with
    | nil => cases h
    | cons part parts =>
      rw [List.zipWith_cons_cons, List.all_cons, List.all_cons, faultlessAll_parensIf,
        ih (Nat.succ.inj h)]

theorem faultlessAll_conjunction {es : List Expr} (h : es.length = parts.length) :
    faultlessAll (conjunction es parts) = parts.all faultlessAll := by
  unfold conjunction
  split
  · next hempty =>
    rw [List.isEmpty_iff.1 hempty] at h
    rw [List.length_eq_zero_iff.1 h.symm]
    rfl
  · rw [faultlessAll_words, all_zipWith_parensIf (by simpa using h)]

theorem faultlessAll_disjunction (parts : List (List Draft)) :
    faultlessAll (disjunction parts) = parts.all faultlessAll := by
  unfold disjunction
  split
  · next hempty =>
    rw [List.isEmpty_iff.1 hempty]
    rfl
  · exact faultlessAll_words "OR" parts

/-- A comparison with `NULL` leaves nothing out that could be at fault. -/
theorem faultlessAll_comparison (op : BinaryOp) {lhs rhs : Expr} {l r : List Draft}
    (h : rhs.isNullValue = true → faultlessAll r = true) :
    faultlessAll (comparison op lhs rhs l r) = (faultlessAll l && faultlessAll r) := by
  unfold comparison
  split
  · next hnull => simp [faultless, h hnull]
  · next hnull => simp [faultless, h hnull]
  · simp [faultless]

@[simp] theorem faultlessAll_enclosed (opening : String) (ds : List Draft) :
    faultlessAll (enclosed opening ds) = faultlessAll ds := by
  simp [enclosed, nested, faultless]

theorem faultlessAll_membership (e : Expr) (ds : List Draft) (parts : List (List Draft)) :
    faultlessAll (membership e ds parts) =
      (parts.isEmpty || (faultlessAll ds && parts.all faultlessAll)) := by
  unfold membership
  split
  · next hempty =>
    rw [hempty]
    rfl
  · next hempty =>
    rw [List.append_assoc, faultlessAll_append, faultlessAll_operand, faultlessAll_bracket,
      faultlessAll_commas]
    simp [hempty]

@[simp] theorem faultlessAll_noRows (s : Spelling) : faultlessAll (noRows s) = true := by
  unfold noRows
  split <;> rfl

theorem faultlessAll_getD (part : Option (List Draft)) (word : String) :
    faultlessAll (part.getD [.text word]) = part.all faultlessAll := by
  cases part <;> rfl

@[simp] theorem faultlessAll_distinct (distinct : Bool) :
    faultlessAll (if distinct then [.text "DISTINCT"] else []) = true := by
  cases distinct <;> rfl

theorem faultlessAll_count (s : Spelling) (distinct : Bool)
    (argument filter : Option (List Draft)) :
    faultlessAll (count s distinct argument filter) =
      ((!distinct || argument.isSome) && argument.all faultlessAll && filter.all faultlessAll) := by
  unfold count
  split
  · next hstar =>
    rw [Bool.and_eq_true, Option.isNone_iff_eq_none] at hstar
    rw [hstar.1, hstar.2]
    rfl
  · next hstar =>
    have hshape : (!distinct || argument.isSome) = true := by
      cases distinct <;> cases argument <;> simp_all
    rw [hshape]
    cases filter with
    | none => simp [faultless, faultlessAll_getD]
    | some f =>
      cases s.features.countFilter with
      | true => simp [faultless, faultlessAll_getD]
      | false => simp [faultless, faultlessAll_getD, Bool.and_comm]

theorem all_equalities (column : Nat → Nat) (parts : List (List Draft)) :
    (parts.mapIdx fun index d => d ++ [.text "=", .cell (column index)]).all faultlessAll =
      parts.all faultlessAll := by
  induction parts generalizing column with
  | nil => rfl
  | cons part parts ih =>
    rw [List.mapIdx_cons, List.all_cons, List.all_cons, ih fun index => column (index + 1)]
    simp [faultless]

theorem faultlessAll_collectionTest (style : CollectionTest) (key : Key) {es : List Expr}
    (h : es.length = parts.length) :
    faultlessAll (collectionTest s style key es parts) =
      (style.takes es.length && parts.all faultlessAll) := by
  unfold collectionTest
  split
  · simp [faultless, CollectionTest.takes]
  · next hnot =>
    have hlength : es.length ≠ 1 := by
      intro hone
      obtain ⟨e, rfl⟩ := List.length_eq_one_iff.1 hone
      obtain ⟨d, rfl⟩ := List.length_eq_one_iff.1 h.symm
      exact hnot e d rfl rfl
    simp [faultless, malformed, CollectionTest.takes, hlength]
  · rfl
  · next hne =>
    have htakes : CollectionTest.disjunction.takes es.length = true :=
      bne_iff_ne.2 fun hzero => hne (List.length_eq_zero_iff.1 hzero)
    have hoperands : (List.zipWith operand es parts).all faultlessAll = parts.all faultlessAll := by
      have hlength : (es.map Expr.isCompound).length = parts.length := by simpa using h
      have hparens := all_zipWith_parensIf hlength
      rw [List.zipWith_map_left] at hparens
      exact hparens
    rw [htakes, Bool.true_and, ← hoperands, ← all_equalities id]
    simp [faultless]

@[simp] theorem faultlessAll_qualifiedName (s : Spelling) (t : Table) :
    faultlessAll (qualifiedName s t) = true := by
  obtain ⟨name, _ | ⟨id, schema, _ | catalog⟩⟩ := t <;>
    simp only [qualifiedName, Option.toList, List.map_nil, List.map_cons] <;>
    cases s.features.schemas <;> cases s.features.catalogs <;> rfl

theorem faultlessAll_hint (s : Spelling) (derived : Bool) (h : IndexHint) :
    faultlessAll (hint s derived h) =
      (!derived && s.features.indexHints != .unsupported) := by
  unfold hint
  cases derived with
  | true => rfl
  | false => cases h.when? <;> cases s.features.indexHints <;> rfl

theorem faultlessAll_hintsOn (s : Spelling) (derived : Bool) (hints : List IndexHint)
    (t : TableId) :
    faultlessAll (hintsOn s derived hints t) =
      hints.all fun h => h.table != t || (!derived && s.features.indexHints != .unsupported) := by
  unfold hintsOn
  induction hints with
  | nil => rfl
  | cons h hints ih =>
    rw [List.filter_cons, List.all_cons, ← ih]
    cases hon : h.table == t with
    | true => simp [faultlessAll_hint, bne, hon]
    | false => simp [bne, hon]

/-- Every dialect has right joins. -/
theorem rightJoin_features (d : Dialect) : d.features.rightJoin = true := by
  cases d <;> rfl

theorem joinFault?_eq_none_iff (s : Spelling) (kind : JoinKind) (constrained : Bool) :
    joinFault? s kind constrained = none ↔ kind.fits s.dialect constrained = true := by
  unfold joinFault? JoinKind.fits Spelling.features
  cases kind <;> cases constrained <;> cases s.dialect.features.fullOuterJoin <;>
    simp [rightJoin_features]

@[simp] theorem faultlessAll_optionalClause (keyword : String) (part : Option (List Draft)) :
    faultlessAll (optionalClause keyword part) = part.all faultlessAll := by
  cases part <;> rfl

@[simp] theorem faultlessAll_listClause (keyword : String) (parts : List (List Draft)) :
    faultlessAll (listClause keyword parts) = parts.all faultlessAll := by
  unfold listClause
  split
  · next hempty =>
    rw [List.isEmpty_iff.1 hempty]
    rfl
  · simp [faultless]

theorem faultlessAll_unlessHintsApply (select : Select) :
    faultlessAll (if select.hintsApply then [] else [malformed .hintOutsideFrom]) =
      select.hintsApply := by
  cases select.hintsApply <;> rfl

theorem faultlessAll_introduce (labels : List TableLabel) :
    faultlessAll (labels.map .introduce) = true := by
  induction labels with
  | nil => rfl
  | cons label labels ih => exact ih

/-- The tables that are read; a table that is always there is never at fault. -/
theorem faultlessAll_from {tables : List JoinedTable} (dual : Bool)
    (h : parts.isEmpty = tables.isEmpty) :
    faultlessAll (if tables.isEmpty then if dual then clause [.text "FROM DUAL"] else []
      else clause (.text "FROM" :: commas .other parts)) = parts.all faultlessAll := by
  split
  · next hnone =>
    rw [List.isEmpty_iff.1 (h.trans hnone)]
    cases dual <;> rfl
  · simp [faultless]

@[simp] theorem faultlessAll_projected (s : Spelling) (ds : List Draft) (label : Option String) :
    faultlessAll (projected s ds label) = faultlessAll ds := by
  cases label <;> simp [projected, ident, faultless]

theorem faultlessAll_lock (s : Spelling) (l : Option Lock) :
    faultlessAll (lock s l) = (l.isNone || s.features.selectForUpdate) := by
  cases l with
  | none => rfl
  | some l =>
    simp only [lock]
    cases s.features.selectForUpdate <;> rfl

theorem faultlessAll_returning (s : Spelling) (parts : List (List Draft)) :
    faultlessAll (returning s parts) =
      (parts.all faultlessAll && (parts.isEmpty || s.features.returning)) := by
  unfold returning
  split
  · next hempty =>
    rw [List.isEmpty_iff.1 hempty]
    rfl
  · next hempty =>
    cases s.features.returning <;> simp [faultless, hempty, lacks, unsupported]

end Clauses

end Draft

open Draft

/-- The hints on a table, if there are any, can be written. -/
def TableUse.hintsFit (d : Dialect) (hints : List IndexHint) (t : TableUse) : Bool :=
  hints.all fun h => h.table != t.id || (t.isBase && d.features.indexHints != .unsupported)

theorem TableUse.id_label (t : TableUse) : t.label.id = t.id := by
  cases t <;> rfl

/-- Hints are on tables that are read, and can be written there. -/
theorem Select.all_applies (d : Dialect) (select : Select) :
    select.hints.all (·.applies d select.uses) =
      (select.hintsApply && select.uses.all (·.hintsFit d select.hints)) := by
  have hlabels : select.labels = select.uses.map (·.label) := by
    simp [Select.labels, Select.uses, List.map_flatMap, Function.comp_def]
  have hread (t : TableId) : select.labels.any (·.id == t) = select.uses.any (·.id == t) := by
    rw [hlabels, List.any_map]
    simp [Function.comp_def, TableUse.id_label]
  rw [Bool.eq_iff_iff]
  simp only [Select.hintsApply, hread, List.all_eq_true, Bool.and_eq_true, IndexHint.applies,
    TableUse.hintsFit, Bool.or_eq_true, bne_iff_ne]
  constructor
  · intro h
    refine ⟨fun hint hin => (h hint hin).1.2, fun t ht hint hin => ?_⟩
    rcases (h hint hin).2 t ht with hne | hbase
    · exact .inl (Ne.symm hne)
    · exact .inr ⟨hbase, (h hint hin).1.1⟩
  · rintro ⟨hread, hfit⟩ hint hin
    obtain ⟨t, ht, hid⟩ := List.any_eq_true.1 (hread hint hin)
    refine ⟨⟨?_, hread hint hin⟩, fun t ht => ?_⟩
    · rcases hfit t ht hint hin with hne | ⟨-, hsupported⟩
      · exact absurd (beq_iff_eq.1 hid).symm hne
      · exact hsupported
    · rcases hfit t ht hint hin with hne | ⟨hbase, -⟩
      · exact .inl (Ne.symm hne)
      · exact .inr hbase

section Statements

variable {s : Spelling}

theorem Expr.faultlessAll_of_isNullValue {e : Expr} (h : e.isNullValue = true) :
    faultlessAll (e.draft s) = true := by
  cases e with
  | value v =>
    cases v with
    | null => rfl
    | _ => cases h
  | _ => cases h

mutual

/-- There is no fault in an expression exactly when it is well formed. -/
theorem Expr.faultless_draft : ∀ e : Expr, faultlessAll (e.draft s) = e.wellFormed s.dialect
  | .value v => by simp [Expr.draft, Expr.wellFormed, faultless_literal]
  | .column _ _ | .param _ | .inline _ | .typeId _ => rfl
  | .and es => by
    rw [Expr.draft, faultlessAll_conjunction (by simp [Expr.draftEach_eq_map]),
      Expr.faultless_draftEach es, Expr.wellFormed]
  | .or es => by
    rw [Expr.draft, faultlessAll_disjunction, Expr.faultless_draftEach es, Expr.wellFormed]
  | .not e => by
    rw [Expr.draft, faultlessAll_bracket, e.faultless_draft, Expr.wellFormed]
  | .binary op lhs rhs => by
    rw [Expr.draft, faultlessAll_comparison op Expr.faultlessAll_of_isNullValue,
      lhs.faultless_draft, rhs.faultless_draft, Expr.wellFormed]
  | .isNull _ e => by simp [Expr.draft, Expr.wellFormed, faultless, e.faultless_draft]
  | .like _ e pattern => by
    simp [Expr.draft, Expr.wellFormed, faultless, e.faultless_draft, pattern.faultless_draft]
  | .inList e list => by
    rw [Expr.draft, faultlessAll_membership, e.faultless_draft, Expr.faultless_draftEach list,
      Expr.isEmpty_draftEach, Expr.wellFormed]
  | .inQuery e q => by
    rw [Expr.draft, faultlessAll_append, faultlessAll_operand, faultlessAll_enclosed,
      e.faultless_draft, q.faultless_draft, Expr.wellFormed]
  | .inCollection style es key => by
    rw [Expr.draft, faultlessAll_collectionTest style key (by simp [Expr.draftEach_eq_map]),
      Expr.faultless_draftEach es, Expr.wellFormed]
  | .existsRow _ q => by
    rw [Expr.draft, faultlessAll_enclosed, q.faultless_draft, Expr.wellFormed]
  | .count distinct argument filter => by
    rw [Expr.draft, faultlessAll_count, Expr.faultless_draftOption argument,
      Expr.faultless_draftOption filter, Expr.draftOption_eq_map, Option.isSome_map,
      Expr.wellFormed]
  | .call name arguments => by
    rw [Expr.draft, faultlessAll_bracket, faultlessAll_commas,
      Expr.faultless_draftEach arguments, Expr.wellFormed]
  | .record fields => by
    rw [Expr.draft, parens, faultlessAll_bracket, faultlessAll_commas,
      Expr.faultless_draftEach fields, Expr.wellFormed]
  | .subquery q => by
    rw [Expr.draft, faultlessAll_enclosed, q.faultless_draft, Expr.wellFormed]
  | .choice key main alternative => by
    simp [Expr.draft, Expr.wellFormed, faultless, main.faultless_draft,
      alternative.faultless_draft]

theorem Expr.faultless_draftEach : ∀ es : List Expr,
    (Expr.draftEach s es).all faultlessAll = Expr.wellFormedEach s.dialect es
  | [] => rfl
  | e :: es => by
    rw [Expr.draftEach, List.all_cons, e.faultless_draft, Expr.faultless_draftEach es,
      Expr.wellFormedEach]

theorem Expr.faultless_draftOption : ∀ e : Option Expr,
    (Expr.draftOption s e).all faultlessAll = Expr.wellFormedOption s.dialect e
  | none => rfl
  | some e => by rw [Expr.draftOption, Option.all_some, e.faultless_draft, Expr.wellFormedOption]

theorem Query.faultless_draft : ∀ q : Query, faultlessAll (q.draft s) = q.wellFormed s.dialect
  | ⟨body, orderBy, limit, lock⟩ => by
    rw [Query.draft, faultlessAll_append, faultlessAll_append, faultlessAll_append,
      faultlessAll_listClause, faultlessAll_lock, body.faultless_draft,
      OrderTerm.faultless_draftEach orderBy, Limit.faultless_draftOption limit, Query.wellFormed,
      Spelling.features]

theorem OrderTerm.faultless_draftEach : ∀ terms : List OrderTerm,
    (OrderTerm.draftEach s terms).all faultlessAll = OrderTerm.wellFormedEach s.dialect terms
  | [] => rfl
  | ⟨e, direction⟩ :: terms => by
    have hdirection : faultlessAll (direction.toList.map fun d => .text d.sql) = true := by
      cases direction <;> rfl
    rw [OrderTerm.draftEach, List.all_cons, faultlessAll_append, hdirection, Bool.and_true,
      e.faultless_draft, OrderTerm.faultless_draftEach terms, OrderTerm.wellFormedEach]

theorem Limit.faultless_draftOption : ∀ limit : Option Limit,
    faultlessAll (Limit.draftOption s limit) = Limit.wellFormedOption s.dialect limit
  | none => rfl
  | some ⟨count, offset⟩ => by
    rw [Limit.draftOption, faultlessAll_clause, List.cons_append, faultlessAll_cons,
      faultlessAll_append, count.faultless_draft, Limit.wellFormedOption,
      ← Expr.faultless_draftOption offset]
    cases Expr.draftOption s offset <;> rfl

theorem QueryBody.faultless_draft : ∀ body : QueryBody,
    faultlessAll (body.draft s) = body.wellFormed s.dialect
  | .select select => by rw [QueryBody.draft, select.faultless_draft, QueryBody.wellFormed]
  | .setOp op operands => by
    rw [QueryBody.draft, QueryBody.wellFormed]
    split
    · next hfew => simp [malformed, faultless, Nat.not_le.2 hfew]
    · next hmany =>
      rw [Query.faultless_draftOperands op true operands]
      simp [Nat.not_lt.1 hmany]

theorem Query.faultless_draftOperands (op : SetOp) : ∀ (first : Bool) (operands : List Query),
    faultlessAll (Query.draftOperands s op first operands) =
      Query.wellFormedOperands s.dialect operands
  | _, [] => rfl
  | first, ⟨body, orderBy, limit, lock⟩ :: operands => by
    have hword :
        faultlessAll (if first then [] else clause (.text op.sql :: clause [])) = true := by
      cases first <;> rfl
    rw [Query.draftOperands, faultlessAll_append, Query.faultless_draftOperands op false operands,
      Query.wellFormedOperands]
    cases hclauses : orderBy.isEmpty && limit.isNone && lock.isNone with
    | true => simp [hword, faultless, body.faultless_draft]
    | false => simp [unsupported, faultless]

theorem Select.faultless_draft : ∀ select : Select,
    faultlessAll (select.draft s) = select.wellFormed s.dialect
  | ⟨distinct, projection, tables, filter, groupBy, having, hints⟩ => by
    have happlies := Select.all_applies s.dialect
      ⟨distinct, projection, tables, filter, groupBy, having, hints⟩
    have hfrom := faultlessAll_from (filter.isSome && s.features.selectWithoutFromNeedsDual)
      (JoinedTable.isEmpty_draftEach (s := s) hints tables)
    rw [JoinedTable.faultless_draftEach hints tables] at hfrom
    rw [Select.draft, Select.wellFormed]
    cases projection.isEmpty with
    | true => rfl
    | false =>
      simp only [Select.uses] at happlies
      simp only [Bool.false_eq_true, if_false, faultlessAll_append, faultlessAll_introduce,
        faultlessAll_unlessHintsApply, faultlessAll_distinct, faultlessAll_cons, faultlessAll_nil,
        faultless, faultlessAll_commas, hfrom, faultlessAll_optionalClause, faultlessAll_listClause,
        Projected.faultless_draftEach projection, Expr.faultless_draftOption filter,
        Expr.faultless_draftEach groupBy, Expr.faultless_draftOption having, Select.uses, happlies,
        Bool.true_and, Bool.and_true, Bool.not_false]
      ac_rfl

theorem Projected.faultless_draftEach : ∀ items : List Projected,
    (Projected.draftEach s items).all faultlessAll = Projected.wellFormedEach s.dialect items
  | [] => rfl
  | ⟨e, label⟩ :: items => by
    rw [Projected.draftEach, List.all_cons, faultlessAll_projected, e.faultless_draft,
      Projected.faultless_draftEach items, Projected.wellFormedEach]

theorem JoinedTable.faultless_draftEach (hints : List IndexHint) : ∀ tables : List JoinedTable,
    (JoinedTable.draftEach s hints tables).all faultlessAll =
      (JoinedTable.wellFormedEach s.dialect tables &&
        (tables.flatMap fun t => t.table :: t.joins.map (·.table)).all
          (·.hintsFit s.dialect hints))
  | [] => rfl
  | ⟨table, joins⟩ :: tables => by
    rw [JoinedTable.draftEach, List.all_cons, faultlessAll_append, table.faultless_draft hints,
      Join.faultless_draftAll hints joins, JoinedTable.faultless_draftEach hints tables,
      JoinedTable.wellFormedEach, List.flatMap_cons, List.all_append, List.all_cons]
    ac_rfl

theorem Join.faultless_draftAll (hints : List IndexHint) : ∀ joins : List Join,
    faultlessAll (Join.draftAll s hints joins) =
      (Join.wellFormedAll s.dialect joins &&
        (joins.map (·.table)).all (·.hintsFit s.dialect hints))
  | [] => rfl
  | ⟨kind, table, constraint⟩ :: joins => by
    rw [Join.draftAll, faultlessAll_append, Join.faultless_draftAll hints joins,
      Join.wellFormedAll, List.map_cons, List.all_cons]
    cases hfault : joinFault? s kind constraint.isSome with
    | some found =>
      obtain ⟨cause, rfl⟩ := exists_of_joinFault? hfault
      have hfits : kind.fits s.dialect constraint.isSome = false := by
        rw [← Bool.not_eq_true, ← joinFault?_eq_none_iff, hfault]
        simp
      simp [faultless, hfits]
    | none =>
      have hfits := (joinFault?_eq_none_iff s kind constraint.isSome).1 hfault
      rw [hfits, ← Expr.faultless_draftOption constraint]
      cases Expr.draftOption s constraint <;>
        simp only [faultlessAll_append, faultlessAll_clause, faultlessAll_cons, faultlessAll_nil,
          faultless, Option.all_none, Option.all_some, Bool.true_and, Bool.and_true,
          table.faultless_draft hints] <;>
        ac_rfl

theorem TableUse.faultless_draft (hints : List IndexHint) : ∀ table : TableUse,
    faultlessAll (table.draft s hints) =
      (table.wellFormed s.dialect && table.hintsFit s.dialect hints)
  | .base id table requested => by
    simp [TableUse.draft, TableUse.wellFormed, TableUse.hintsFit, TableUse.isBase, TableUse.id,
      faultless, faultlessAll_hintsOn, Spelling.features]
  | .derived id q => by
    simp [TableUse.draft, TableUse.wellFormed, TableUse.hintsFit, TableUse.isBase, TableUse.id,
      faultless, faultlessAll_hintsOn, q.faultless_draft]

end

theorem InsertSource.faultless_draft (width : Nat) (source : InsertSource) :
    faultlessAll (source.draft s width) = source.wellFormed s.dialect width := by
  cases source with
  | values rows =>
    simp only [InsertSource.draft, InsertSource.wellFormed]
    cases hrows : rows.isEmpty with
    | true => rfl
    | false =>
      cases hwidth : rows.find? (·.length != width) with
      | some row =>
        have hrow : (row.length == width) = false := by simpa using List.find?_some hwidth
        have hall : rows.all (·.length == width) = false :=
          List.all_eq_false.2 ⟨row, List.mem_of_find?_eq_some hwidth, by simp [hrow]⟩
        simp [hall, malformed, faultless]
      | none =>
        have hall : rows.all (·.length == width) = true :=
          List.all_eq_true.2 fun row hrow => by simpa using List.find?_eq_none.1 hwidth row hrow
        have hrow (row : List Expr) :
            faultlessAll (parens (commas .other (Expr.draftEach s row))) =
              Expr.wellFormedEach s.dialect row := by
          rw [parens, faultlessAll_bracket, faultlessAll_commas, Expr.faultless_draftEach]
        simp [hall, faultless, Function.comp_def, hrow]
  | query q =>
    simp [InsertSource.draft, InsertSource.wellFormed, nested, faultless, q.faultless_draft]
  | collection key =>
    simp [InsertSource.draft, InsertSource.wellFormed, faultless, List.all_map, Function.comp_def]

theorem all_idents (names : List String) :
    (names.map fun name => [ident s name]).all faultlessAll = true := by
  simp [ident, faultless]

theorem Insert.faultless_draft (i : Insert) :
    faultlessAll (i.draft s) = i.wellFormed s.dialect := by
  rw [Insert.draft, Insert.wellFormed]
  cases i.columns.isEmpty with
  | true => rfl
  | false =>
    have hcolumns : faultlessAll (parens (commas .other (i.columns.map fun c => [ident s c]))) =
        true := by
      rw [parens, faultlessAll_bracket, faultlessAll_commas, all_idents]
    have hreturning := faultlessAll_returning s (i.returning.map fun c => [ident s c])
    rw [all_idents, List.isEmpty_map, Bool.true_and] at hreturning
    simp only [Bool.false_eq_true, if_false, List.cons_append, faultlessAll_cons, faultless,
      faultlessAll_append, faultlessAll_qualifiedName, hcolumns, i.source.faultless_draft,
      hreturning, Bool.true_and, Bool.not_false]
    rfl

theorem TableUse.faultless_draftTarget (target : TableUse) (ds : List Draft) :
    faultlessAll (target.draftTarget ds) = (target.isBase && faultlessAll ds) := by
  cases target with
  | base id table requested => simp [TableUse.draftTarget, TableUse.isBase, faultless]
  | derived id q => rfl

/-- A base table without hints on it is always written. -/
theorem TableUse.faultless_target {target : TableUse} (h : target.isBase = true) :
    faultlessAll (target.draft s []) = true := by
  cases target with
  | base id table requested =>
    rw [TableUse.faultless_draft]
    rfl
  | derived id q => cases h

theorem Projected.faultless_returning (items : List Projected) :
    faultlessAll (Draft.returning s (Projected.draftEach s items)) =
      (Projected.wellFormedEach s.dialect items &&
        (items.isEmpty || s.dialect.features.returning)) := by
  rw [faultlessAll_returning, Projected.faultless_draftEach, Projected.draftEach_eq_map,
    List.isEmpty_map]
  rfl

theorem Update.faultless_draft (u : Update) :
    faultlessAll (u.draft s) = u.wellFormed s.dialect := by
  have hassignments : (u.assignments.map (·.draft s)).all faultlessAll =
      u.assignments.all (·.expr.wellFormed s.dialect) := by
    rw [List.all_map]
    simp [Function.comp_def, Assignment.draft, ident, faultless, Expr.faultless_draft]
  rw [Update.draft, Update.wellFormed]
  cases u.assignments.isEmpty with
  | true => rfl
  | false =>
    rw [if_neg Bool.false_ne_true, TableUse.faultless_draftTarget]
    cases hbase : u.target.isBase with
    | false => rfl
    | true =>
      simp only [List.cons_append, faultlessAll_cons, faultless, faultlessAll_append,
        TableUse.faultless_target hbase, faultlessAll_listClause, hassignments,
        faultlessAll_optionalClause, Expr.faultless_draftOption, Projected.faultless_returning,
        Bool.true_and, Bool.not_false]
      ac_rfl

theorem Delete.faultless_draft (x : Delete) :
    faultlessAll (x.draft s) = x.wellFormed s.dialect := by
  rw [Delete.draft, Delete.wellFormed, TableUse.faultless_draftTarget]
  cases hbase : x.target.isBase with
  | false => rfl
  | true =>
    simp only [List.cons_append, faultlessAll_cons, faultless, faultlessAll_append,
      TableUse.faultless_target hbase, faultlessAll_optionalClause, Expr.faultless_draftOption,
      Projected.faultless_returning, Bool.true_and]
    ac_rfl

theorem Statement.faultless_draft (statement : Statement) :
    faultlessAll (statement.draft s) = statement.wellFormed s.dialect := by
  cases statement with
  | query q => exact q.faultless_draft
  | insert i => exact i.faultless_draft
  | update u => exact u.faultless_draft
  | delete x => exact x.faultless_draft

end Statements

/-- The compiler accepts exactly the admissible statements. -/
theorem Compiler.compiles_iff (c : Compiler) (statement : Statement) :
    (∃ t, c.compile statement = .ok t) ↔ statement.admissible c.spelling = true := by
  obtain ⟨ids, hscoped⟩ := statement.scoped_draft (s := c.spelling)
  have hresolves := hscoped.exists_resolves_iff (q := c.format.quote) c.represents_names rfl rfl
    fun t ht => nomatch ht
  rw [Statement.faultless_draft] at hresolves
  rw [Statement.admissible, Bool.and_eq_true, ← hresolves]
  constructor
  · rintro ⟨t, ht⟩
    obtain ⟨ns, hr⟩ := resolves_of_compile ht
    exact ⟨_, ns, hr⟩
  · rintro ⟨fs, ns, hr⟩
    exact exists_compile_of_resolves hr

end PreparedSql
