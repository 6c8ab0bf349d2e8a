import PreparedSql.Proofs.Draft.Neatness
import PreparedSql.Proofs.Template.Lines

/-!
# How drafts carry the current line

Drafts are of three sorts by what they do to the current line. A *block*, such as a clause, leaves
lines that were begun. A *filler* goes on in a line that has something on it. A *phrase* is a filler
that may also stand at the beginning of a line, or of a row of a repetition, where the line may
count as empty. It always writes something: only the columns of an update's or delete's own target
may be empty names, and no such statement begins a line with them.
-/

namespace PreparedSql.Draft

/-- With the columns of `bare` standing alone, the fragments of the draft carry the current line
from one state to the other. -/
def Carries (w : Setting) (bare : Option TableId) (X : LineState) (ds : List Draft)
    (Y : LineState) : Prop :=
  ∀ ns fs ns', Resolves w.quote bare ns ds fs ns' → Fragment.Carries w X fs Y

namespace Carries

variable {w : Setting} {bare : Option TableId} {X Y Z : LineState} {d : Draft} {ds es : List Draft}

theorem nil : Carries w bare X [] X := by
  rintro _ _ _ ⟨⟩
  exact .nil

theorem append (hds : Carries w bare X ds Y) (hes : Carries w bare Y es Z) :
    Carries w bare X (ds ++ es) Z := by
  intro ns fs ns' h
  obtain ⟨first, mid, rest, hfirst, hrest, rfl⟩ := h.append_inv
  exact (hds _ _ _ hfirst).append (hes _ _ _ hrest)

theorem cons (hd : Carries w bare X [d] Y) (hds : Carries w bare Y ds Z) :
    Carries w bare X (d :: ds) Z := hd.append hds

theorem mono {X' Y' : LineState} (h : Carries w bare X ds Y) (hX : X'.within X = true)
    (hY : Y.within Y' = true) : Carries w bare X' ds Y' :=
  fun _ _ _ hr => (h _ _ _ hr).mono hX hY

theorem text {s : String} (hs : s ≠ "") : Carries w bare .loose [.text s] .filled := by
  intro _ _ _ hr
  obtain ⟨rfl, -⟩ := hr.text_inv
  exact .text hs

theorem text_any (s : String) : Carries w bare .filled [.text s] .filled := by
  intro _ _ _ hr
  obtain ⟨rfl, -⟩ := hr.text_inv
  exact .text_any s rfl rfl

theorem comma : Carries w bare .filled [.delimiter "," .other] .filled := by
  intro _ _ _ hr
  obtain ⟨rfl, -⟩ := hr.delimiter_inv
  exact .comma

theorem line {s : String} {kind : DelimiterKind} (hkind : kind.breaksLine = true) :
    Carries w bare .begun [.delimiter s kind] .margin := by
  intro _ _ _ hr
  obtain ⟨rfl, -⟩ := hr.delimiter_inv
  exact .line hkind

theorem hole (h : Hole) {unnamed : h.isParam = false} :
    Carries w bare .loose [.hole h unnamed] .filled := by
  intro _ _ _ hr
  obtain ⟨rfl, -⟩ := hr.hole_inv
  exact .hole h

theorem param (p : Param) : Carries w bare .loose [.param p] .filled := by
  intro _ _ _ hr
  obtain ⟨rfl, -⟩ := hr.param_inv
  exact .hole _

theorem cell (index : Nat) : Carries w bare .loose [.cell index] .filled := by
  intro _ _ _ hr
  obtain ⟨rfl, -⟩ := hr.cell_inv
  exact .cell index

/-- A column that is seen through a table is not empty. -/
theorem column (t : TableId) (name : String) :
    Carries w none .loose [.column t name] .filled := by
  intro _ _ _ hr
  obtain ⟨⟨hbare, -⟩ | ⟨-, table, -, rfl⟩, -⟩ := hr.column_inv
  · cases hbare
  · refine .text fun hempty => ?_
    have hpoint : '.' ∈ (w.quote.column table name).toList := by simp [QuoteMark.column]
    exact absurd (hempty ▸ hpoint) (by decide)

theorem column_any (t : TableId) (name : String) (hfilled : LineState.filled.within X = true)
    (hloose : X.within .loose = true) : Carries w bare X [.column t name] X := by
  intro _ _ _ hr
  obtain ⟨⟨-, rfl⟩ | ⟨-, table, -, rfl⟩, -⟩ := hr.column_inv
  · exact .text_any _ hfilled hloose
  · exact .text_any _ hfilled hloose

theorem introduce (t : TableLabel) : Carries w bare X [.introduce t] X := by
  intro _ _ _ hr
  obtain ⟨rfl, -⟩ := hr.introduce_inv
  exact .nil

theorem tableName (t : TableLabel) : Carries w bare .filled [.tableName t] .filled := by
  intro _ _ _ hr
  obtain ⟨⟨-, rfl⟩ | ⟨-, rfl⟩, -⟩ := hr.tableName_inv
  · exact .nil
  · exact .text_any _ rfl rfl

theorem group (hw : w.Settled) (h : Carries w bare .begun ds .begun) :
    Carries w bare .filled [.group ds] .margin := by
  intro _ _ _ hr
  obtain ⟨inner, mid, hinner, rfl, -⟩ := hr.group_inv
  exact .group hw (h _ _ _ hinner)

theorem scope {kind : ScopeKind} (h : Carries w (kind.bare bare) X ds Y) :
    Carries w bare X [.scope kind ds] Y := by
  intro _ _ _ hr
  obtain ⟨mid, hinner, -⟩ := hr.scope_inv
  exact h _ _ _ hinner

theorem choice {key : Key} (hds : Carries w bare X ds .inked) (hes : Carries w bare X es .inked) :
    Carries w bare X [.choice key ds es] .filled := by
  intro _ _ _ hr
  obtain ⟨main, mid, alternative, hmain, halternative, rfl⟩ := hr.choice_inv
  exact .choice (hds _ _ _ hmain) (hes _ _ _ halternative)

theorem each {key : Key} {between : String} (hX : X = .loose ∨ X = .inked)
    (hds : Carries w bare X ds .inked) (hes : Carries w bare X es .inked) :
    Carries w bare X [.each key ds es between] .filled := by
  intro _ _ _ hr
  obtain ⟨body, mid, empty, hbody, hempty, rfl⟩ := hr.each_inv
  exact .each hX (hds _ _ _ hbody) (hes _ _ _ hempty)

/-- What cannot be written carries the line anywhere. -/
theorem fault (cause : Cause) : Carries w bare X [.fault cause] Y := nofun

end Carries

variable {w : Setting} {bare : Option TableId} {s : Spelling} {d : Draft} {ds es : List Draft}
  {parts : List (List Draft)} {word opening : String}

/-! ## Fillers -/

/-- Drafts that go on in a line. -/
def Filler (w : Setting) (ds : List Draft) : Prop := ∀ bare, Carries w bare .filled ds .filled

namespace Filler

theorem nil : Filler w [] := fun _ => .nil

theorem append (hds : Filler w ds) (hes : Filler w es) : Filler w (ds ++ es) :=
  fun bare => (hds bare).append (hes bare)

theorem cons (hd : Filler w [d]) (hds : Filler w ds) : Filler w (d :: ds) := hd.append hds

theorem text (s : String) : Filler w [.text s] := fun _ => .text_any s

theorem hole (h : Hole) {unnamed : h.isParam = false} : Filler w [.hole h unnamed] :=
  fun _ => (Carries.hole h).mono rfl rfl

theorem commas (h : ∀ part ∈ parts, Filler w part) : Filler w (commas .other parts) :=
  of_intercalate nil append (fun _ => .comma) h

theorem cons_text (s : String) (h : Filler w ds) : Filler w (.text s :: ds) := (text s).cons h

theorem idents (names : List String) : ∀ part ∈ names.map fun name => [ident s name],
    Filler w part := by
  intro part hpart
  obtain ⟨name, -, rfl⟩ := List.mem_map.1 hpart
  exact text _

theorem noRows : Filler w (noRows s) := (of_ite _ (text _) nil).append (text _)

theorem qualifiedName (t : Table) : Filler w (qualifiedName s t) := by
  refine append ?_ (text _)
  cases t.schema with
  | none => exact nil
  | some schema =>
    refine of_ite _ (append (of_ite _ ?_ nil) (hole _)) nil
    cases schema.catalog with
    | none => exact nil
    | some catalog => exact hole _

/-- A hint that is not made leaves the line as it is. -/
theorem hint (derived : Bool) (h : IndexHint) : Filler w (hint s derived h) := by
  unfold Draft.hint
  extract_lets ds
  have hds : Filler w ds := by
    unfold ds
    split
    · exact fun _ => .fault _
    · exact cons_text _ (cons_text _ (text _))
    · exact cons_text _ (text _)
  refine of_ite _ (fun _ => .fault _) ?_
  split
  · exact hds
  · exact fun bare => .choice (.mono (.nil (X := .filled)) rfl rfl) ((hds bare).mono rfl rfl)

theorem hintsOn (derived : Bool) (hints : List IndexHint) (t : TableId) :
    Filler w (hintsOn s derived hints t) := by
  unfold Draft.hintsOn
  induction hints.filter (·.table == t) with
  | nil => exact nil
  | cons h hints ih => exact append (hint derived h) ih

/-- A table that is read, the hints on it and its alias. -/
theorem used (h : Filler w ds) (t : TableLabel) (derived : Bool) (hints : List IndexHint) :
    Filler w (ds ++ .tableName t :: Draft.hintsOn s derived hints t.id) :=
  h.append (cons (fun _ => .tableName t) (hintsOn derived hints t.id))

/-- Behind a first word anything may follow. -/
theorem lead (hword : word ≠ "") (h : Filler w ds) :
    Carries w bare .loose (.text word :: ds) .filled :=
  (Carries.text hword).cons (h bare)

theorem clause (hword : word ≠ "") (h : Filler w ds) :
    Carries w bare .begun (clause (.text word :: ds)) .filled :=
  .cons (.line rfl) ((h.lead hword).mono rfl rfl)

end Filler

/-! ## Blocks -/

/-- Drafts that make lines of their own. -/
def Block (w : Setting) (bare : Option TableId) (ds : List Draft) : Prop :=
  Carries w bare .begun ds .begun

namespace Block

theorem nil : Block w bare [] := Carries.nil

theorem append (hds : Block w bare ds) (hes : Block w bare es) : Block w bare (ds ++ es) :=
  Carries.append hds hes

theorem fault (cause : Cause) : Block w bare [.fault cause] := Carries.fault cause

/-- Parts that begin lines, each on its own. -/
theorem commas {kind : DelimiterKind} (hkind : kind.breaksLine = true)
    (h : ∀ part ∈ parts, Block w bare part) : Block w bare (commas kind parts) :=
  of_intercalate nil append ((Carries.line hkind).mono rfl rfl) h

theorem clause (hword : word ≠ "") (h : Filler w ds) :
    Block w bare (clause (.text word :: ds)) := (h.clause hword).mono rfl rfl

theorem optionalClause (hword : word ≠ "") {part : Option (List Draft)}
    (h : ∀ ds ∈ part, Filler w ds) : Block w bare (optionalClause word part) := by
  cases part with
  | none => exact nil
  | some ds => exact clause hword (h ds rfl)

theorem listClause (hword : word ≠ "") (h : ∀ part ∈ parts, Filler w part) :
    Block w bare (listClause word parts) := of_ite _ nil (clause hword (.commas h))

theorem lock (l : Option Lock) : Block w bare (lock s l) := by
  cases l with
  | none => exact nil
  | some l => exact of_ite _ (clause (by cases l <;> decide) .nil) (fault _)

theorem returning (h : ∀ part ∈ parts, Filler w part) : Block w bare (returning s parts) :=
  of_ite _ nil (of_ite _ (clause (by decide) (.commas h)) (fault _))

end Block

/-! ## Phrases -/

/-- Drafts that may begin a line. -/
structure Phrase (w : Setting) (ds : List Draft) : Prop where
  begins : Carries w none .loose ds .filled
  restarts : ∀ bare, Carries w bare .inked ds .inked
  goesOn : Filler w ds

namespace Phrase

theorem block (h : Phrase w ds) : Block w none ds := h.begins.mono rfl rfl

/-- What writes something wherever it stands. -/
theorem of_loose (h : ∀ bare, Carries w bare .loose ds .filled) : Phrase w ds where
  begins := h none
  restarts bare := (h bare).mono rfl rfl
  goesOn bare := (h bare).mono rfl rfl

theorem lead (hword : word ≠ "") (h : Filler w ds) : Phrase w (.text word :: ds) :=
  of_loose fun _ => h.lead hword

theorem text (hword : word ≠ "") : Phrase w [.text word] := lead hword .nil

theorem append (hds : Phrase w ds) (hes : Phrase w es) : Phrase w (ds ++ es) where
  begins := hds.begins.append (hes.goesOn none)
  restarts bare := (hds.restarts bare).append (hes.restarts bare)
  goesOn := hds.goesOn.append hes.goesOn

theorem fault (cause : Cause) : Phrase w [.fault cause] := .of_loose fun _ => .fault cause

theorem column (t : TableId) (name : String) : Phrase w [.column t name] where
  begins := .column t name
  restarts _ := .column_any t name rfl rfl
  goesOn _ := .column_any t name rfl rfl

theorem choice {key : Key} (hds : Phrase w ds) (hes : Phrase w es) :
    Phrase w [.choice key ds es] where
  begins := .choice (hds.begins.mono rfl rfl) (hes.begins.mono rfl rfl)
  restarts bare := (Carries.choice (hds.restarts bare) (hes.restarts bare)).mono rfl rfl
  goesOn bare := (Carries.choice (hds.restarts bare) (hes.restarts bare)).mono rfl rfl

theorem each {key : Key} {between : String} (hds : Phrase w ds) (hes : Phrase w es) :
    Phrase w [.each key ds es between] where
  begins := .each (.inl rfl) (hds.begins.mono rfl rfl) (hes.begins.mono rfl rfl)
  restarts bare := (Carries.each (.inr rfl) (hds.restarts bare) (hes.restarts bare)).mono rfl rfl
  goesOn bare := (Carries.each (.inr rfl) (hds.restarts bare) (hes.restarts bare)).mono rfl rfl

theorem bracket (hopening : opening ≠ "") (h : Filler w ds) :
    Phrase w (.text opening :: ds ++ [.text ")"]) := lead hopening (h.append (.text _))

theorem parens (h : Filler w ds) : Phrase w (parens ds) := bracket (by decide) h

theorem parensIf (b : Bool) (h : Phrase w ds) : Phrase w (parensIf b ds) :=
  of_ite b (parens h.goesOn) h

theorem operand (e : Expr) (h : Phrase w ds) : Phrase w (operand e ds) := h.parensIf _

/-- A statement in parentheses, which has lines of its own. -/
theorem enclosed (hw : w.Settled) (hopening : opening ≠ "") (h : Block w none ds) :
    Phrase w (enclosed opening ds) := by
  refine of_loose fun bare => .cons (.text hopening) (.cons (.scope (.group hw h)) ?_)
  exact (Carries.text (by decide)).mono rfl rfl

theorem projected (label : Option String) (h : Phrase w ds) : Phrase w (projected s ds label) := by
  cases label with
  | none => simpa [Draft.projected] using h
  | some name => exact h.append (lead (by decide) (.text _))

theorem literal (v : Value) : Phrase w [literal s v] := by
  unfold Draft.literal
  split
  · next hsql => exact text (Inked.literal hsql).ne_empty
  · exact fault _

/-! ## Operators -/

theorem words (hword : word ≠ "") (hne : parts ≠ []) (h : ∀ part ∈ parts, Phrase w part) :
    Phrase w (words word parts) := by
  unfold Draft.words
  induction parts with
  | nil => exact absurd rfl hne
  | cons part parts ih =>
    obtain ⟨hpart, hparts⟩ := List.forall_mem_cons.1 h
    cases parts with
    | nil =>
      rw [List.intercalate_singleton]
      exact hpart
    | cons next parts =>
      rw [List.intercalate_cons_cons]
      exact (hpart.append (text hword)).append (ih (List.cons_ne_nil _ _) hparts)

theorem conjunction (f : Expr → List Draft) (operands : List Expr)
    (h : ∀ e ∈ operands, Phrase w (f e)) :
    Phrase w (conjunction operands (operands.map f)) := by
  unfold Draft.conjunction
  split
  · exact text (by decide)
  · next hne =>
    refine words (by decide) (by simpa using hne) fun part hpart => ?_
    obtain ⟨i, hi, rfl⟩ := List.getElem_of_mem hpart
    rw [List.getElem_zipWith]
    refine Phrase.parensIf _ ?_
    rw [List.getElem_map]
    exact h _ (List.getElem_mem _)

theorem disjunction (h : ∀ part ∈ parts, Phrase w part) : Phrase w (disjunction parts) := by
  unfold Draft.disjunction
  split
  · exact text (by decide)
  · next hne => exact words (by decide) (by simpa using hne) h

theorem comparison (op : BinaryOp) (lhs rhs : Expr) (hl : Phrase w ds) (hr : Phrase w es) :
    Phrase w (comparison op lhs rhs ds es) := by
  have hop : op.sql ≠ "" := by cases op <;> decide
  unfold Draft.comparison
  split
  · exact (hl.operand lhs).append (text (by decide))
  · exact (hl.operand lhs).append (text (by decide))
  · exact (hl.operand lhs).append (lead hop (hr.operand rhs).goesOn)

theorem membership (e : Expr) (hds : Phrase w ds) (h : ∀ part ∈ parts, Filler w part) :
    Phrase w (membership e ds parts) := by
  refine of_ite _ (text (by decide)) ?_
  rw [List.append_assoc]
  exact (hds.operand e).append (bracket (by decide) (.commas h))

theorem count (distinct : Bool) {argument filter : Option (List Draft)}
    (hargument : ∀ ds ∈ argument, Filler w ds) (hfilter : ∀ ds ∈ filter, Filler w ds) :
    Phrase w (count s distinct argument filter) := by
  have hgetD (word : String) : Filler w (argument.getD [.text word]) := by
    cases argument with
    | none => exact .text word
    | some ds => exact hargument ds rfl
  have hdistinct : Filler w (if distinct then [.text "DISTINCT"] else []) :=
    of_ite _ (.text _) .nil
  refine of_ite _ (fault _) (lead (by decide) (hdistinct.append ?_))
  split
  · exact (hgetD _).append (.text _)
  · exact (((hgetD _).append (.cons_text _ (.text _))).append (hfilter _ rfl)).append (.text _)
  · exact (Filler.append (.cons_text _ (hfilter _ rfl)) (.cons_text _ (hgetD _))).append
      (.cons_text _ (.text _))

theorem collectionTest (f : Expr → List Draft) (style : CollectionTest) (key : Key)
    (es : List Expr) (h : ∀ e ∈ es, Phrase w (f e)) :
    Phrase w (collectionTest s style key es (es.map f)) := by
  unfold Draft.collectionTest
  split
  · next e d hd =>
    obtain rfl : f e = d := by simpa using hd
    have heach : Phrase w [.each key [.cell 0] (.text "SELECT NULL" :: noRows s) ", "] :=
      each (.of_loose fun _ => .cell 0) (lead (by decide) .noRows)
    exact ((h e (List.mem_singleton_self e)).operand e).append
      (bracket (by decide) heach.goesOn)
  · exact fault _
  · exact fault _
  · next hne =>
    refine each (words (by decide) (by simpa using hne) fun part hpart => ?_) (text (by decide))
    obtain ⟨index, hindex, rfl⟩ := List.getElem_of_mem hpart
    rw [List.getElem_mapIdx, List.getElem_zipWith]
    refine Phrase.append (Phrase.operand _ ?_) (lead (by decide) fun bare => ?_)
    · rw [List.getElem_map]
      exact h _ (List.getElem_mem _)
    · exact (Carries.cell index).mono rfl rfl

end Phrase

end PreparedSql.Draft
