import PreparedSql.Proofs.Draft.Composition

/-!
# The wording of drafts

The texts that statements are made of are few in kind: the words of the language, names of
functions with the parenthesis after them, identifiers and literals. `Draft.Worded` is about
properties that these texts have and other texts may lack, such as not to end in a space. It asks
for less than `Draft.Compositional`, and passes through the operators and clauses of statements in
the same way.

There are two properties, one of all drafts and a stronger one of drafts that stand by themselves,
as the branches of choices do. An expression always stands by itself, a clause may not.
-/

namespace PreparedSql.Draft

/-- The words of the language, those that belong together as one text. The closing parenthesis is
not among them: it is never the first word of anything. -/
def keywords : List String :=
  ["(", "1 = 1", "1 = 0", "AND", "OR", "NOT (", "IS NULL", "IS NOT NULL", "LIKE", "NOT LIKE",
    "=", "<>", "<", "<=", ">", ">=", "+", "-", "*", "/", "IN (", "EXISTS (", "NOT EXISTS (",
    "COUNT(", "DISTINCT", "1", "FILTER (WHERE", "CASE WHEN", "THEN", "END", "NULL", "SELECT NULL",
    "SELECT", "FROM", "FROM DUAL", "WHERE 1 = 0", "AS", "USE INDEX (", "INDEXED BY", "ON", "WHERE",
    "GROUP BY", "HAVING", "ORDER BY", "ASC", "DESC", "LIMIT", "OFFSET", "FOR UPDATE", "FOR SHARE",
    "INNER JOIN", "LEFT JOIN", "RIGHT JOIN", "FULL OUTER JOIN", "CROSS JOIN", "UNION", "UNION ALL",
    "INTERSECT", "EXCEPT", "INSERT INTO", "VALUES", "UPDATE", "SET", "DELETE FROM", "RETURNING"]

/-- The texts that statements are made of, if the functions they call have the property `P`. -/
inductive Wording (s : Spelling) (P : String → Prop) : String → Prop where
  | word {w : String} (h : w ∈ keywords) : Wording s P w
  /-- The beginning of a call. -/
  | call {name : String} (h : P name) : Wording s P (name ++ "(")
  | ident (name : String) : Wording s P (s.quote.quote name)
  | literal {v : Value} {sql : String} (h : v.literal s.dialect = .ok sql) : Wording s P sql

/-- A property `S` that the texts of statements have and that passes from the parts of a draft to
the whole, and a stronger one, `T`, of what stands by itself. Holes for values, repetitions and
cells are left open. A fault is never written, so it has both. -/
structure Worded (s : Spelling) (P : String → Prop) (S T : List Draft → Prop) : Prop where
  weaken : ∀ {ds}, T ds → S ds
  nil : T []
  append : ∀ {ds es}, S ds → S es → S (ds ++ es)
  concat : ∀ {ds es}, T ds → T es → T (ds ++ es)
  /-- Behind a first word anything may follow. -/
  lead : ∀ {w ds}, Wording s P w → S ds → T (.text w :: ds)
  closing : S [.text ")"]
  /-- What starts a line. -/
  line : S [.delimiter "" .row]
  comma : ∀ kind, S [.delimiter "," kind]
  qualifier : ∀ {h unnamed}, h.qualifies = true → S [.hole h unnamed]
  column : ∀ t name, T [.column t name]
  introduce : ∀ t, S [.introduce t]
  tableName : ∀ t, S [.tableName t]
  group : ∀ {ds}, S ds → S [.group ds]
  scope : ∀ {kind ds}, S ds → S [.scope kind ds]
  choice : ∀ {key main alternative}, T main → T alternative → T [.choice key main alternative]
  fault : ∀ cause, T [.fault cause]

namespace Worded

variable {s : Spelling} {P : String → Prop} {S T : List Draft → Prop} (hS : Worded s P S T)
  {d : Draft} {ds es : List Draft} {parts : List (List Draft)} {word opening keyword : String}

include hS

theorem empty : S [] := hS.weaken hS.nil

theorem cons (hd : S [d]) (hds : S ds) : S (d :: ds) := hS.append hd hds

theorem of_each (h : ∀ d ∈ ds, S [d]) : S ds := by
  induction ds with
  | nil => exact hS.empty
  | cons d ds ih =>
    obtain ⟨hd, hds⟩ := List.forall_mem_cons.1 h
    exact hS.cons hd (ih hds)

theorem weaken_each (h : ∀ part ∈ parts, T part) : ∀ part ∈ parts, S part :=
  fun part hpart => hS.weaken (h part hpart)

theorem cons_text (hword : Wording s P word) (h : S ds) : S (.text word :: ds) :=
  hS.weaken (hS.lead hword h)

theorem text (hword : Wording s P word) : T [.text word] := hS.lead hword hS.empty

theorem refuse (cause : Cause) : S [.fault cause] := hS.weaken (hS.fault cause)

theorem clause (h : S ds) : S (clause ds) := hS.cons hS.line h

theorem bracket (hopening : Wording s P opening) (h : S ds) :
    T (.text opening :: ds ++ [.text ")"]) :=
  hS.lead hopening (hS.append h hS.closing)

theorem parens (h : S ds) : T (parens ds) := hS.bracket (.word (by decide)) h

theorem parensIf (b : Bool) (h : T ds) : T (parensIf b ds) :=
  of_ite b (hS.parens (hS.weaken h)) h

theorem operand (e : Expr) (h : T ds) : T (operand e ds) := hS.parensIf _ h

theorem enclosed (hopening : Wording s P opening) (h : S ds) : T (enclosed opening ds) :=
  hS.lead hopening (hS.cons (hS.scope (hS.group h)) hS.closing)

/-! ## Lists -/

theorem commas (kind : DelimiterKind) (h : ∀ part ∈ parts, S part) : S (commas kind parts) :=
  of_intercalate hS.empty hS.append (hS.comma kind) h

theorem words (hword : Wording s P word) (h : ∀ part ∈ parts, T part) : T (words word parts) :=
  of_intercalate hS.nil hS.concat (hS.text hword) h

theorem zipWith_parensIf (bs : List Bool) (h : ∀ part ∈ parts, T part) :
    ∀ part ∈ List.zipWith Draft.parensIf bs parts, T part := by
  intro part hpart
  obtain ⟨i, hi, rfl⟩ := List.getElem_of_mem hpart
  rw [List.getElem_zipWith]
  exact hS.parensIf _ (h _ (List.getElem_mem _))

theorem optionalClause (hkeyword : Wording s P keyword) {part : Option (List Draft)}
    (h : ∀ ds ∈ part, S ds) : S (optionalClause keyword part) := by
  cases part with
  | none => exact hS.empty
  | some ds => exact hS.clause (hS.cons_text hkeyword (h ds rfl))

theorem listClause (hkeyword : Wording s P keyword) (h : ∀ part ∈ parts, S part) :
    S (listClause keyword parts) :=
  of_ite _ hS.empty (hS.clause (hS.cons_text hkeyword (hS.commas .other h)))

/-! ## Operators -/

theorem literal (v : Value) : T [literal s v] := by
  unfold Draft.literal
  split
  · next hsql => exact hS.text (.literal hsql)
  · exact hS.fault _

theorem conjunction (operands : List Expr) (h : ∀ part ∈ parts, T part) :
    T (conjunction operands parts) :=
  of_ite _ (hS.text (.word (by decide)))
    (hS.words (.word (by decide)) (hS.zipWith_parensIf _ h))

theorem disjunction (h : ∀ part ∈ parts, T part) : T (disjunction parts) :=
  of_ite _ (hS.text (.word (by decide))) (hS.words (.word (by decide)) h)

theorem comparison (op : BinaryOp) (lhs rhs : Expr) (hl : T ds) (hr : T es) :
    T (comparison op lhs rhs ds es) := by
  have hop : Wording s P op.sql := .word (by cases op <;> decide)
  unfold Draft.comparison
  split
  · exact hS.concat (hS.operand lhs hl) (hS.text (.word (by decide)))
  · exact hS.concat (hS.operand lhs hl) (hS.text (.word (by decide)))
  · exact hS.concat (hS.operand lhs hl) (hS.lead hop (hS.weaken (hS.operand rhs hr)))

theorem membership (e : Expr) (hds : T ds) (h : ∀ part ∈ parts, S part) :
    T (membership e ds parts) := by
  refine of_ite _ (hS.text (.word (by decide))) ?_
  rw [List.append_assoc]
  exact hS.concat (hS.operand e hds) (hS.bracket (.word (by decide)) (hS.commas .other h))

theorem getD (hword : Wording s P word) {part : Option (List Draft)} (h : ∀ ds ∈ part, S ds) :
    S (part.getD [.text word]) := by
  cases part with
  | none => exact hS.cons_text hword hS.empty
  | some ds => exact h ds rfl

theorem count (distinct : Bool) {argument filter : Option (List Draft)}
    (hargument : ∀ ds ∈ argument, S ds) (hfilter : ∀ ds ∈ filter, S ds) :
    T (count s distinct argument filter) := by
  have hstar : S (argument.getD [.text "*"]) := hS.getD (.word (by decide)) hargument
  have hone : S (argument.getD [.text "1"]) := hS.getD (.word (by decide)) hargument
  have hdistinct : S (if distinct then [.text "DISTINCT"] else []) :=
    of_ite _ (hS.cons_text (.word (by decide)) hS.empty) hS.empty
  refine of_ite _ (hS.fault _) (hS.lead (.word (by decide)) (hS.append hdistinct ?_))
  split
  · exact hS.append hstar hS.closing
  · exact hS.append (hS.append (hS.append hstar
      (hS.cons hS.closing (hS.cons_text (.word (by decide)) hS.empty))) (hfilter _ rfl)) hS.closing
  · exact hS.append (hS.append (hS.cons_text (.word (by decide)) (hfilter _ rfl))
      (hS.cons_text (.word (by decide)) hone)) (hS.cons_text (.word (by decide)) hS.closing)

theorem noRows : S (noRows s) :=
  hS.append (of_ite _ (hS.cons_text (.word (by decide)) hS.empty) hS.empty)
    (hS.cons_text (.word (by decide)) hS.empty)

/-! ## Clauses -/

theorem ident (name : String) : S [ident s name] := hS.cons_text (.ident name) hS.empty

theorem qualifiedName (t : Table) : S (qualifiedName s t) := by
  refine hS.append ?_ (hS.ident t.name)
  cases t.schema with
  | none => exact hS.empty
  | some schema =>
    refine of_ite _ (hS.append (of_ite _ (hS.of_each ?_) hS.empty) (hS.qualifier rfl)) hS.empty
    intro d hd
    obtain ⟨catalog, -, rfl⟩ := List.mem_map.1 hd
    exact hS.qualifier rfl

/-- A hint that is made only sometimes is a branch of its own. -/
theorem hint (derived : Bool) (h : IndexHint) : S (hint s derived h) := by
  unfold Draft.hint
  extract_lets ds
  have hds : T ds := by
    unfold ds
    split
    · exact hS.fault _
    · exact hS.bracket (.word (by decide)) (hS.ident h.index)
    · exact hS.lead (.word (by decide)) (hS.ident h.index)
  refine of_ite _ (hS.refuse _) (hS.weaken ?_)
  split
  · exact hds
  · exact hS.choice hS.nil hds

theorem hintsOn (derived : Bool) (hints : List IndexHint) (t : TableId) :
    S (hintsOn s derived hints t) := by
  unfold Draft.hintsOn
  induction hints.filter (·.table == t) with
  | nil => exact hS.empty
  | cons h hints ih => exact hS.append (hS.hint derived h) ih

theorem projected (label : Option String) (h : S ds) : S (projected s ds label) := by
  refine hS.append h ?_
  split
  · exact hS.empty
  · next name => exact hS.cons_text (.word (by decide)) (hS.ident name)

theorem lock (l : Option Lock) : S (lock s l) := by
  cases l with
  | none => exact hS.empty
  | some l =>
    have hword : Wording s P l.sql := .word (by cases l <;> decide)
    exact of_ite _ (hS.clause (hS.cons_text hword hS.empty)) (hS.refuse _)

theorem returning (h : ∀ part ∈ parts, S part) : S (returning s parts) :=
  of_ite _ hS.empty
    (of_ite _ (hS.clause (hS.cons_text (.word (by decide)) (hS.commas .other h))) (hS.refuse _))

/-- A join that may be written, and what is wrong with one that may not. -/
theorem join {kind : JoinKind} {constrained : Bool} (h : S ds) :
    S (match joinFault? s kind constrained with | some found => [found] | none => ds) := by
  cases hfault : joinFault? s kind constrained with
  | none => exact h
  | some found =>
    obtain ⟨cause, rfl⟩ := exists_of_joinFault? hfault
    exact hS.refuse cause

end Worded

end PreparedSql.Draft
