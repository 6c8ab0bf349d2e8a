import PreparedSql.Draft.Statement
import PreparedSql.Proofs.Draft.Writing

/-!
# Properties that drafts have from their parts

Much of what is said about written drafts holds of a draft as soon as it holds of its parts.
`Draft.Compositional` says what such a property must satisfy for the single kinds of draft; the
lemmas carry it through the operators and clauses of statements, so that a recursion over
statements is left with the places that depend on the arguments.
-/

namespace PreparedSql.Draft

/-- A property that plain words have and that passes from the parts of a draft to the whole.
Holes for values, repetitions and cells are left open. A fault is never written, so it has
the property. -/
structure Compositional (S : List Draft → Prop) : Prop where
  nil : S []
  append : ∀ {ds es}, S ds → S es → S (ds ++ es)
  text : ∀ s, S [.text s]
  delimiter : ∀ s kind, S [.delimiter s kind]
  qualifier : ∀ {h unnamed}, h.qualifies = true → S [.hole h unnamed]
  column : ∀ t name, S [.column t name]
  introduce : ∀ t, S [.introduce t]
  tableName : ∀ t, S [.tableName t]
  group : ∀ {ds}, S ds → S [.group ds]
  scope : ∀ {kind ds}, S ds → S [.scope kind ds]
  choice : ∀ {key main alternative}, S main → S alternative → S [.choice key main alternative]
  fault : ∀ cause, S [.fault cause]

theorem of_ite {S : List Draft → Prop} {ds es : List Draft} (b : Bool) (hds : S ds) (hes : S es) :
    S (if b then ds else es) :=
  iteInduction (fun _ => hds) fun _ => hes

/-- Parts with a separator, of a property that survives appending. -/
theorem of_intercalate {S : List Draft → Prop} {separator : List Draft}
    {parts : List (List Draft)} (nil : S []) (append : ∀ {ds es}, S ds → S es → S (ds ++ es))
    (hseparator : S separator) (h : ∀ part ∈ parts, S part) :
    S (List.intercalate separator parts) := by
  induction parts with
  | nil => exact nil
  | cons part parts ih =>
    obtain ⟨hpart, hparts⟩ := List.forall_mem_cons.1 h
    cases parts with
    | nil =>
      rw [List.intercalate_singleton]
      exact hpart
    | cons next parts =>
      rw [List.intercalate_cons_cons]
      exact append (append hpart hseparator) (ih hparts)

namespace Compositional

variable {S : List Draft → Prop} (hS : Compositional S) {s : Spelling} {d : Draft}
  {ds es : List Draft} {parts : List (List Draft)}

include hS

theorem cons (hd : S [d]) (hds : S ds) : S (d :: ds) := hS.append hd hds

theorem of_each (h : ∀ d ∈ ds, S [d]) : S ds := by
  induction ds with
  | nil => exact hS.nil
  | cons d ds ih =>
    obtain ⟨hd, hds⟩ := List.forall_mem_cons.1 h
    exact hS.cons hd (ih hds)

theorem cons_text (word : String) (h : S ds) : S (.text word :: ds) := hS.cons (hS.text word) h

theorem clause (h : S ds) : S (clause ds) := hS.cons (hS.delimiter "" .row) h

theorem bracket (opening : String) (h : S ds) : S (.text opening :: ds ++ [.text ")"]) :=
  hS.append (hS.cons_text opening h) (hS.text ")")

theorem parensIf (b : Bool) (h : S ds) : S (parensIf b ds) := of_ite b (hS.bracket "(" h) h

theorem operand (e : Expr) (h : S ds) : S (operand e ds) := hS.parensIf _ h

theorem enclosed (opening : String) (h : S ds) : S (enclosed opening ds) :=
  hS.cons_text opening (hS.cons (hS.scope (hS.group h)) (hS.text ")"))

/-! ## Lists -/

theorem intercalate (hd : S [d]) (h : ∀ part ∈ parts, S part) :
    S (List.intercalate [d] parts) :=
  of_intercalate hS.nil hS.append hd h

theorem commas (kind : DelimiterKind) (h : ∀ part ∈ parts, S part) : S (commas kind parts) :=
  hS.intercalate (hS.delimiter "," kind) h

theorem words (word : String) (h : ∀ part ∈ parts, S part) : S (words word parts) :=
  hS.intercalate (hS.text word) h

theorem zipWith_parensIf (bs : List Bool) (h : ∀ part ∈ parts, S part) :
    ∀ part ∈ List.zipWith Draft.parensIf bs parts, S part := by
  intro part hpart
  obtain ⟨i, hi, rfl⟩ := List.getElem_of_mem hpart
  rw [List.getElem_zipWith]
  exact hS.parensIf _ (h _ (List.getElem_mem _))

theorem optionalClause (keyword : String) {part : Option (List Draft)} (h : ∀ ds ∈ part, S ds) :
    S (optionalClause keyword part) := by
  cases part with
  | none => exact hS.nil
  | some ds => exact hS.clause (hS.cons_text keyword (h ds rfl))

theorem listClause (keyword : String) (h : ∀ part ∈ parts, S part) :
    S (listClause keyword parts) :=
  of_ite _ hS.nil (hS.clause (hS.cons_text keyword (hS.commas .other h)))

/-! ## Operators -/

theorem literal (s : Spelling) (v : Value) : S [literal s v] := by
  unfold Draft.literal
  split
  · exact hS.text _
  · exact hS.fault _

theorem conjunction (operands : List Expr) (h : ∀ part ∈ parts, S part) :
    S (conjunction operands parts) :=
  of_ite _ (hS.text "1 = 1") (hS.words "AND" (hS.zipWith_parensIf _ h))

theorem disjunction (h : ∀ part ∈ parts, S part) : S (disjunction parts) :=
  of_ite _ (hS.text "1 = 0") (hS.words "OR" h)

theorem comparison (op : BinaryOp) (lhs rhs : Expr) (hl : S ds) (hr : S es) :
    S (comparison op lhs rhs ds es) := by
  unfold Draft.comparison
  split
  · exact hS.append (hS.operand lhs hl) (hS.text _)
  · exact hS.append (hS.operand lhs hl) (hS.text _)
  · exact hS.append (hS.operand lhs hl) (hS.cons_text _ (hS.operand rhs hr))

theorem membership (e : Expr) (hds : S ds) (h : ∀ part ∈ parts, S part) :
    S (membership e ds parts) := by
  refine of_ite _ (hS.text "1 = 0") ?_
  rw [List.append_assoc]
  exact hS.append (hS.operand e hds) (hS.bracket "IN (" (hS.commas .other h))

theorem getD (word : String) {part : Option (List Draft)} (h : ∀ ds ∈ part, S ds) :
    S (part.getD [.text word]) := by
  cases part with
  | none => exact hS.text word
  | some ds => exact h ds rfl

theorem count (s : Spelling) (distinct : Bool) {argument filter : Option (List Draft)}
    (hargument : ∀ ds ∈ argument, S ds) (hfilter : ∀ ds ∈ filter, S ds) :
    S (count s distinct argument filter) := by
  refine of_ite _ (hS.fault _) (hS.append (hS.cons_text _ (of_ite _ (hS.text _) hS.nil)) ?_)
  split
  · exact hS.append (hS.getD "*" hargument) (hS.text ")")
  · exact hS.append (hS.append (hS.append (hS.getD "*" hargument)
      (hS.cons_text ")" (hS.text _))) (hfilter _ rfl)) (hS.text ")")
  · exact hS.append (hS.append (hS.cons_text _ (hfilter _ rfl))
      (hS.cons_text "THEN" (hS.getD "1" hargument))) (hS.cons_text "END" (hS.text ")"))

theorem noRows (s : Spelling) : S (noRows s) :=
  hS.append (of_ite _ (hS.text "FROM DUAL") hS.nil) (hS.text "WHERE 1 = 0")

/-! ## Clauses -/

theorem qualifiedName (s : Spelling) (t : Table) : S (qualifiedName s t) := by
  refine hS.append ?_ (hS.text _)
  cases t.schema with
  | none => exact hS.nil
  | some schema =>
    refine of_ite _ (hS.append (of_ite _ (hS.of_each ?_) hS.nil) (hS.qualifier rfl)) hS.nil
    intro d hd
    obtain ⟨catalog, -, rfl⟩ := List.mem_map.1 hd
    exact hS.qualifier rfl

theorem hint (s : Spelling) (derived : Bool) (h : IndexHint) : S (hint s derived h) := by
  unfold Draft.hint
  extract_lets ds
  have hds : S ds := by
    unfold ds
    split
    · exact hS.fault _
    · exact hS.bracket _ (hS.text _)
    · exact hS.cons_text _ (hS.text _)
  refine of_ite _ (hS.fault _) ?_
  split
  · exact hds
  · exact hS.choice hS.nil hds

theorem hintsOn (s : Spelling) (derived : Bool) (hints : List IndexHint) (t : TableId) :
    S (hintsOn s derived hints t) := by
  unfold Draft.hintsOn
  induction hints.filter (·.table == t) with
  | nil => exact hS.nil
  | cons h hints ih => exact hS.append (hS.hint s derived h) ih

theorem projected (label : Option String) (h : S ds) : S (projected s ds label) := by
  refine hS.append h ?_
  split
  · exact hS.nil
  · exact hS.cons_text "AS" (hS.text _)

theorem lock (s : Spelling) (l : Option Lock) : S (lock s l) := by
  cases l with
  | none => exact hS.nil
  | some l => exact of_ite _ (hS.clause (hS.text _)) (hS.fault _)

theorem returning (h : ∀ part ∈ parts, S part) : S (returning s parts) :=
  of_ite _ hS.nil
    (of_ite _ (hS.clause (hS.cons_text "RETURNING" (hS.commas .other h))) (hS.fault _))

/-- A join that may be written, and what is wrong with one that may not. -/
theorem join {kind : JoinKind} {constrained : Bool} (h : S ds) :
    S (match joinFault? s kind constrained with | some found => [found] | none => ds) := by
  cases hfault : joinFault? s kind constrained with
  | none => exact h
  | some found =>
    obtain ⟨cause, rfl⟩ := exists_of_joinFault? hfault
    exact hS.fault cause

end Compositional

end PreparedSql.Draft
