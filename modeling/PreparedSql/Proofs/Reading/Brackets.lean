import Mathlib.Tactic.Choose
import PreparedSql.Proofs.Draft.Writing
import PreparedSql.Proofs.Reading.Token

/-!
# Brackets pair up

In whatever an execution writes for a part of a statement, every bracket has its
partner, and outside of all brackets an expression shows no comma, no `SELECT` and
no set operator. So a comma between two arguments of a call is the only one at its
depth, and a set operator outside of brackets joins two operands of a set operation.

The recursion over statements is done once, for the rules by which drafts are put
together (`Draft.Framed`); what is read in a framed draft follows by induction over
the rules.
-/

namespace PreparedSql

/-- What a part of a statement may show outside of brackets. -/
inductive Place where
  /-- An expression. -/
  | term
  /-- Clauses and lists, but no set operation. -/
  | clause
  | query
deriving DecidableEq, Repr

def Place.admits : Place → Token → Bool
  | .term, .comma | .term, .select | .term, .setOp _ | .clause, .setOp _ => false
  | _, _ => true

theorem Place.clause_admits {t : Token} (h : term.admits t = true) : clause.admits t = true := by
  cases t with
  | setOp op => cases h
  | _ => rfl

/-- Brackets pair up, and what stands outside of them is admitted. -/
inductive Closed : Place → List Token → Prop where
  | nil {p} : Closed p []
  | token {p} {t : Token} : t.isBracket = false → p.admits t = true → Closed p [t]
  | append {p ts us} : Closed p ts → Closed p us → Closed p (ts ++ us)
  | bracket {p p' ts} {o : Token} : o.opens = true → Closed p' ts →
      Closed p (o :: ts ++ [.closing])

namespace Closed

variable {p p' : Place} {t : Token} {ts us : List Token}

theorem widen (h : Closed p ts) (hp : ∀ t, p.admits t = true → p'.admits t = true) :
    Closed p' ts := by
  induction h with
  | nil => exact .nil
  | token hbracket hadmits => exact .token hbracket (hp _ hadmits)
  | append _ _ first second => exact (first hp).append (second hp)
  | bracket ho hinner _ => exact .bracket ho hinner

theorem cons (hbracket : t.isBracket = false) (hadmits : p.admits t = true) (h : Closed p ts) :
    Closed p (t :: ts) :=
  (token hbracket hadmits).append h

theorem of_forall (h : ∀ t ∈ ts, t.isBracket = false ∧ p.admits t = true) : Closed p ts := by
  induction ts with
  | nil => exact .nil
  | cons t ts ih =>
    have ht := h t (by simp)
    exact cons ht.1 ht.2 (ih fun u hu => h u (by simp [hu]))

theorem intercalate {tss : List (List Token)} (hsep : Closed p us) (h : ∀ ts ∈ tss, Closed p ts) :
    Closed p (List.intercalate us tss) := by
  induction tss with
  | nil => exact .nil
  | cons ts tss ih =>
    have hfirst := h ts (by simp)
    have hrest := ih fun ts hts => h ts (by simp [hts])
    cases tss with
    | nil => simpa using hfirst
    | cons ts' tss =>
      rw [List.intercalate_cons_cons]
      exact (hfirst.append hsep).append hrest

end Closed

/-- The words that a part of a statement may show outside of brackets, besides
`SELECT`. -/
def Place.words : Place → List String
  | .term =>
    ["OR", "AND", "LIKE", "NOT LIKE", "=", "<>", "<", "<=", ">", ">=", "+", "-", "*", "/",
      "IS NULL", "IS NOT NULL", "1 = 1", "1 = 0"]
  | .clause =>
    ["DISTINCT", "*", "1", "CASE WHEN", "THEN", "END", "AS", "FROM", "FROM DUAL",
      "INNER JOIN", "LEFT JOIN", "RIGHT JOIN", "FULL OUTER JOIN", "CROSS JOIN", "ON",
      "INDEXED BY", "WHERE", "WHERE 1 = 0", "GROUP BY", "HAVING", "ORDER BY", "ASC", "DESC",
      "LIMIT", "OFFSET", "FOR UPDATE", "FOR SHARE", "SELECT NULL"]
  | .query => ["UNION", "UNION ALL", "INTERSECT", "EXCEPT"]

theorem Place.admits_of_mem_words {p : Place} {w : String} (h : w ∈ p.words) :
    ∀ t ∈ Token.ofText w, t.isBracket = false ∧ p.admits t = true := by
  have hall : ∀ p : Place, ∀ w ∈ p.words, ∀ t ∈ Token.ofText w,
      t.isBracket = false ∧ p.admits t = true := by
    intro p
    cases p <;> decide +kernel
  exact hall p w h

namespace Token

/-- A text with one opening bracket, perhaps negated, and words after it. -/
def Opening (s : String) : Prop :=
  ∃ before o after, ofText s = before ++ o :: after ∧ o.opens = true ∧
    (∀ t ∈ before, t = .not) ∧ ∀ t ∈ after, t.isBracket = false

theorem opening_function (name : String) : Opening (name ++ "(") := by
  obtain ⟨before, o, htext, ho, hbefore⟩ := exists_ofText_function name
  exact ⟨before, o, [], htext, ho, hbefore, by simp⟩

/-- The openings that are words of the language. -/
theorem opening_of_mem {s : String}
    (h : s ∈ ["(", "NOT (", "IN (", "EXISTS (", "NOT EXISTS ("]) : Opening s := by
  have hname : ∃ name, s = name ++ "(" := by
    simp only [List.mem_cons, List.not_mem_nil, or_false] at h
    rcases h with rfl | rfl | rfl | rfl | rfl
    · exact ⟨"", rfl⟩
    · exact ⟨"NOT ", rfl⟩
    · exact ⟨"IN ", rfl⟩
    · exact ⟨"EXISTS ", rfl⟩
    · exact ⟨"NOT EXISTS ", rfl⟩
  obtain ⟨name, rfl⟩ := hname
  exact opening_function name

theorem opening_filter : Opening "FILTER (WHERE" :=
  ⟨[], .call "FILTER ", [.leaf (.word "WHERE")], ofText_of_mem (by simp [wordings]), rfl,
    by simp, by decide⟩

end Token

namespace Draft

/-- The rules by which the drafts of statements are put together, as far as
brackets are concerned. The second index tells whether the first token is known to
be `SELECT`. -/
inductive Framed (s : Spelling) : Place → Bool → List Draft → Prop where
  | nil {p} : Framed s p false []
  | append {p b ds es} : Framed s p b ds → Framed s p false es → Framed s p b (ds ++ es)
  | word {p} {w : String} :
      (∀ t ∈ Token.ofText w, t.isBracket = false ∧ p.admits t = true) → Framed s p false [.text w]
  | select {p} : p.admits .select = true → Framed s p true [.text "SELECT"]
  | name {p} (name : String) : Framed s p false [ident s name]
  | literal {p} (v : Value) : Framed s p false [literal s v]
  | comma {p} (kind : DelimiterKind) : p.admits .comma = true →
      Framed s p false [.delimiter "," kind]
  | line {p} (kind : DelimiterKind) : Framed s p false [.delimiter "" kind]
  | bracket {p p' b ds} {opening : String} : Token.Opening opening → Framed s p' b ds →
      Framed s p false (.text opening :: ds ++ [.text ")"])
  | hole {p} (h : Hole) (unnamed : h.isParam = false) : Framed s p false [.hole h unnamed]
  | param {p} (v : Param) : Framed s p false [.param v]
  | column {p} (t : TableId) (name : String) : Framed s p false [.column t name]
  | cell {p} (index : Nat) : Framed s p false [.cell index]
  | tableName {p} (t : TableLabel) : Framed s p false [.tableName t]
  | introduce {p b ds} (t : TableLabel) : Framed s p b ds → Framed s p b (.introduce t :: ds)
  | fault {p b ds} (cause : Cause) : Framed s p b (.fault cause :: ds)
  | group {p b ds} : Framed s p b ds → Framed s p b [.group ds]
  | scope {p b ds} (kind : ScopeKind) : Framed s p b ds → Framed s p b [.scope kind ds]
  | choice {p b b' main alternative} (key : Key) : Framed s p b main → Framed s p b' alternative →
      Framed s p false [.choice key main alternative]
  | each {p b b' body empty} (key : Key) {between : String} : Framed s p b body →
      Framed s p b' empty →
      (∀ t ∈ Token.ofSeparator between, t.isBracket = false ∧ p.admits t = true) →
      Framed s p false [.each key body empty between]
  | forget {p b ds} : Framed s p b ds → Framed s p false ds
  | widen {p p' b ds} : Framed s p b ds → (∀ t, p.admits t = true → p'.admits t = true) →
      Framed s p' b ds

theorem framed_word {s : Spelling} {p : Place} {w : String} (h : w ∈ p.words) :
    Framed s p false [.text w] :=
  .word (Place.admits_of_mem_words h)

end Draft

/-- A reading in which brackets pair up. If `starts`, it begins with `SELECT`. -/
def ReadsClosed (free : Prop) (p : Place) (starts : Bool) (steps : List Step) : Prop :=
  ∃ ts, Reads free steps ts ∧ Closed p ts ∧ (starts = true → ts.head? = some .select)

namespace ReadsClosed

variable {free : Prop} {p : Place} {b : Bool} {steps more : List Step}

theorem leaf {l : Leaf} (h : Reads free steps [.leaf l]) : ReadsClosed free p false steps :=
  ⟨_, h, .token rfl (by cases p <;> rfl), by simp⟩

theorem silent (h : Reads free steps []) : ReadsClosed free p false steps :=
  ⟨_, h, .nil, by simp⟩

theorem append (h : ReadsClosed free p b steps) (h' : ReadsClosed free p false more) :
    ReadsClosed free p b (steps ++ more) := by
  obtain ⟨ts, hts, hclosed, hstart⟩ := h
  obtain ⟨us, hus, hclosed', -⟩ := h'
  refine ⟨ts ++ us, hts.append hus, hclosed.append hclosed', ?_⟩
  intro hb
  rw [List.head?_append, hstart hb]
  rfl

theorem forget (h : ReadsClosed free p b steps) : ReadsClosed free p false steps := by
  obtain ⟨ts, hts, hclosed, -⟩ := h
  exact ⟨ts, hts, hclosed, by simp⟩

/-- An indented part is read like its content. -/
theorem group (h : ReadsClosed free p b steps) :
    ReadsClosed free p b (.enter :: steps ++ [.exit]) := by
  obtain ⟨ts, hts, hclosed, hstart⟩ := h
  exact ⟨ts, .enter (by simpa using hts.append (.exit .nil)), hclosed, hstart⟩

/-- Behind an opening text anything may stand that is closed in some place. -/
theorem bracket {p' : Place} {opening : String} (ho : Token.Opening opening)
    (h : ReadsClosed free p' b steps) :
    ReadsClosed free p false (.token opening :: steps ++ [.token ")"]) := by
  obtain ⟨before, o, after, htext, hopens, hbefore, hafter⟩ := ho
  obtain ⟨ts, hts, hclosed, -⟩ := h
  have hcontent : Closed .query (after ++ ts) :=
    (Closed.of_forall fun t ht => ⟨hafter t ht, rfl⟩).append (hclosed.widen fun _ _ => rfl)
  have hnegation : Closed p before := .of_forall fun t ht => by
    rw [hbefore t ht]
    exact ⟨rfl, by cases p <;> rfl⟩
  refine ⟨_, hts.bracket _, ?_, by simp⟩
  rw [htext]
  simpa using hnegation.append (.bracket hopens hcontent)

/-- What fills a hole is read as one operand. -/
theorem filled {step : Step} (glued : Bool)
    (h : (∃ s, step = .write s) ∨ (∃ m, step = .marker m) ∨ ∃ what, step = .missing what) :
    ReadsClosed free p false [.gap, step, .settle glued] := by
  rcases h with ⟨s, rfl⟩ | ⟨m, rfl⟩ | ⟨what, rfl⟩
  · exact leaf (.supplied s glued .nil)
  · exact leaf (.marker m glued .nil)
  · exact silent (.missing what glued .nil)

/-- The rows of a repetition, one after the other. -/
theorem rows {rows : List (List Cell)} {between : String} {inner : Nat → List Cell → List Step}
    (hne : rows ≠ []) (hrows : ∀ index cells, ReadsClosed free p false (inner index cells))
    (hbetween : ∀ t ∈ Token.ofSeparator between, t.isBracket = false ∧ p.admits t = true) :
    ReadsClosed free p false (.gap :: List.intercalate [.write between]
      (rows.mapIdx fun index cells => .fresh :: inner index cells) ++ [.settle false]) := by
  choose tokens hreads hclosed _ using hrows
  refine ⟨_, .rows hne fun i cells _ => hreads i cells, .intercalate (.of_forall hbetween) ?_,
    by simp⟩
  intro ts hts
  obtain ⟨i, hi, rfl⟩ := List.mem_mapIdx.1 hts
  exact hclosed i _

end ReadsClosed

theorem Hole.step_cases (a : Arguments) (q : QuoteMark) (h : Hole) :
    (∃ s, h.step a q = .write s) ∨ (∃ m, h.step a q = .marker m) ∨
      ∃ what, h.step a q = .missing what := by
  cases h with
  | param p name => cases hp : a.param p <;> simp [Hole.step, hp]
  | inline key => cases hkey : a.inline key <;> simp [Hole.step, hkey]
  | schema s => exact .inl ⟨_, rfl⟩
  | catalog c => exact .inl ⟨_, rfl⟩
  | typeId t =>
    cases ht : a.typeId t with
    | some number => simp [Hole.step, ht]
    | none => cases hinterface : t.interface <;> simp [Hole.step, ht, hinterface]

theorem RowAt.step_cases (row : Option RowAt) (index : Nat) :
    (∃ s, RowAt.step row index = .write s) ∨ (∃ m, RowAt.step row index = .marker m) ∨
      ∃ what, RowAt.step row index = .missing what := by
  unfold RowAt.step
  split
  · simp
  · split <;> simp

namespace Draft.Framed

variable {s : Spelling} {a : Arguments} {row : Option RowAt} {p : Place} {b : Bool}
  {ds : List Draft} {steps : List Step}

theorem readsClosed (h : Framed s p b ds) (hw : Written s.quote a row ds steps) :
    ReadsClosed (s.quote = .plain) p b steps := by
  induction h generalizing row steps with
  | nil =>
    obtain rfl := hw.nil
    exact .silent .nil
  | append _ _ first second =>
    obtain ⟨steps, more, hsteps, hmore, rfl⟩ := hw.append
    exact (first hsteps).append (second hmore)
  | word hw' =>
    obtain rfl := hw.text
    exact ⟨_, .wording _, .of_forall hw', by simp⟩
  | select hp =>
    obtain rfl := hw.text
    have htext : Token.ofText "SELECT" = [.select] :=
      Token.ofText_of_mem (by simp [Token.wordings])
    exact ⟨[.select], htext ▸ .wording _, .token rfl hp, fun _ => rfl⟩
  | name name =>
    obtain rfl := hw.text
    exact .leaf (.word fun hq => Token.ofText_quote hq name)
  | literal v =>
    unfold Draft.literal at hw
    split at hw
    · next w hliteral =>
      obtain rfl := hw.text
      exact .leaf (.word fun _ => Token.ofText_literal hliteral)
    · exact hw.fault.elim
  | comma kind hp =>
    obtain rfl := hw.delimiter
    exact ⟨[.comma], .delimiter "," kind .nil, .token rfl hp, by simp⟩
  | line kind =>
    obtain rfl := hw.delimiter
    exact .silent (.delimiter "" kind .nil)
  | bracket ho _ inner =>
    obtain ⟨body, hbody, rfl⟩ := hw.bracket
    exact .bracket ho (inner hbody)
  | hole h unnamed =>
    obtain rfl := hw.hole
    exact .filled _ (h.step_cases a s.quote)
  | param v =>
    obtain ⟨name, rfl⟩ := hw.param
    exact .filled _ (Hole.step_cases a s.quote (.param v name))
  | column t name =>
    obtain ⟨w, rfl | ⟨table, rfl⟩, rfl⟩ := hw.column
    · exact .leaf (.word fun hq => Token.ofText_quote hq name)
    · exact .leaf (.word fun hq => Token.ofText_column hq table name)
  | cell index =>
    obtain rfl := hw.cell
    exact .filled _ (RowAt.step_cases row index)
  | tableName t =>
    obtain rfl | ⟨name, rfl⟩ := hw.tableName
    · exact .silent .nil
    · exact .leaf (.word fun hq => Token.ofText_quote hq name)
  | introduce t _ ih =>
    obtain ⟨first, rest, hfirst, hrest, rfl⟩ := hw.cons
    obtain rfl := hfirst.introduce
    exact ih hrest
  | fault cause => exact hw.fault.elim
  | group _ inner =>
    obtain ⟨steps, hsteps, rfl⟩ := hw.group
    exact (inner hsteps).group
  | scope kind _ inner => exact inner hw.scope
  | @choice p _ _ _ _ key _ _ first second =>
    obtain ⟨steps, hsteps, rfl⟩ := hw.choice
    have hclosed : ReadsClosed (s.quote = .plain) p false steps := by
      split at hsteps
      · exact (second hsteps).forget
      · exact (first hsteps).forget
    exact hclosed.append (.silent (.settle false .nil))
  | each key _ _ hbetween first second =>
    by_cases hrows : a.rows key = []
    · obtain ⟨steps, hsteps, rfl⟩ := hw.each_nil hrows
      obtain ⟨ts, hts, hclosed, -⟩ := second hsteps
      exact ⟨ts, .start (by simpa using hts.append (.settle false .nil)), hclosed, by simp⟩
    · obtain ⟨inner, hinner, rfl⟩ := hw.each_rows hrows
      exact .rows hrows (fun index cells => (first (hinner index cells)).forget) hbetween
  | forget _ ih => exact (ih hw).forget
  | widen _ hp ih =>
    obtain ⟨ts, hts, hclosed, hstart⟩ := ih hw
    exact ⟨ts, hts, hclosed.widen hp, hstart⟩

end Draft.Framed

/-! ## The parts of statements -/

namespace Draft

section Clauses

variable {s : Spelling} {p : Place} {b : Bool} {d ds : List Draft} {parts : List (List Draft)}

theorem Framed.asClause (h : Framed s .term b ds) : Framed s .clause false ds :=
  h.forget.widen fun _ => Place.clause_admits

theorem Framed.asQuery (h : Framed s p b ds) : Framed s .query b ds := h.widen fun _ _ => rfl

theorem framed_intercalate {sep : List Draft} (hsep : Framed s p false sep)
    (h : ∀ part ∈ parts, Framed s p false part) :
    Framed s p false (List.intercalate sep parts) := by
  induction parts with
  | nil => exact .nil
  | cons part parts ih =>
    have hfirst := h part (by simp)
    have hrest := ih fun part hpart => h part (by simp [hpart])
    cases parts with
    | nil => simpa using hfirst
    | cons part' parts =>
      rw [List.intercalate_cons_cons]
      exact (hfirst.append hsep).append hrest

theorem framed_clause (h : Framed s p false ds) : Framed s p false (clause ds) :=
  (Framed.line .row).append h

theorem framed_commas (kind : DelimiterKind) (h : ∀ part ∈ parts, Framed s .clause false part) :
    Framed s .clause false (commas kind parts) :=
  framed_intercalate (.comma kind rfl) h

theorem framed_parens (h : Framed s p b ds) : Framed s .term false (parens ds) :=
  .bracket (Token.opening_of_mem (by simp)) h

theorem framed_parensIf (c : Bool) (h : Framed s .term false ds) :
    Framed s .term false (parensIf c ds) := by
  cases c with
  | false => exact h
  | true => exact framed_parens h

theorem framed_conjunction (es : List Expr) (h : ∀ part ∈ parts, Framed s .term false part) :
    Framed s .term false (conjunction es parts) := by
  unfold conjunction
  split
  · exact framed_word (by simp [Place.words])
  · refine framed_intercalate (framed_word (by simp [Place.words])) fun part hpart => ?_
    obtain ⟨i, hi, rfl⟩ := List.getElem_of_mem hpart
    rw [List.getElem_zipWith]
    exact framed_parensIf _ (h _ (List.getElem_mem _))

theorem framed_disjunction (h : ∀ part ∈ parts, Framed s .term false part) :
    Framed s .term false (disjunction parts) := by
  unfold disjunction
  split
  · exact framed_word (by simp [Place.words])
  · exact framed_intercalate (framed_word (by simp [Place.words])) h

theorem framed_comparison {op : BinaryOp} {lhs rhs : Expr} {l r : List Draft}
    (hl : Framed s .term false l) (hr : Framed s .term false r) :
    Framed s .term false (comparison op lhs rhs l r) := by
  have hop : Framed s .term false [.text op.sql] :=
    framed_word (by cases op <;> simp [Place.words, BinaryOp.sql])
  have hl' : Framed s .term false (operand lhs l) := framed_parensIf _ hl
  unfold comparison
  split
  · exact hl'.append (framed_word (by simp [Place.words]))
  · exact hl'.append (framed_word (by simp [Place.words]))
  · exact hl'.append (hop.append (framed_parensIf _ hr))

/-- A query in parentheses, or after a word that brings its own. -/
theorem framed_enclosed {opening : String} (ho : Token.Opening opening) (h : Framed s p b ds) :
    Framed s .term false (enclosed opening ds) := by
  have hnested : Framed s p b [nested ds] := .scope .nested (.group h)
  exact .bracket ho hnested

theorem framed_membership {e : Expr} (hd : Framed s .term false d)
    (h : ∀ part ∈ parts, Framed s .clause false part) :
    Framed s .term false (membership e d parts) := by
  unfold membership
  split
  · exact framed_word (by simp [Place.words])
  · have hlist : Framed s .term false (.text "IN (" :: commas .other parts ++ [.text ")"]) :=
      .bracket (Token.opening_of_mem (by simp)) (framed_commas .other h)
    rw [List.append_assoc]
    exact (framed_parensIf _ hd).append hlist

/-- The argument of `COUNT`, or what stands in for it. -/
theorem framed_getD {argument : Option (List Draft)} {word : String}
    (hword : Framed s .clause false [.text word])
    (h : ∀ part ∈ argument, Framed s .clause false part) :
    Framed s .clause false (argument.getD [.text word]) := by
  cases argument with
  | none => exact hword
  | some part => exact h part rfl

theorem framed_count (s : Spelling) (distinct : Bool) {argument filter : Option (List Draft)}
    (hargument : ∀ part ∈ argument, Framed s .clause false part)
    (hfilter : ∀ part ∈ filter, Framed s .clause false part) :
    Framed s .term false (count s distinct argument filter) := by
  have hstar : Framed s .clause false (argument.getD [.text "*"]) :=
    framed_getD (framed_word (by simp [Place.words])) hargument
  have hone : Framed s .clause false (argument.getD [.text "1"]) :=
    framed_getD (framed_word (by simp [Place.words])) hargument
  have hdistinct : Framed s .clause false (if distinct then [.text "DISTINCT"] else []) := by
    split
    · exact framed_word (by simp [Place.words])
    · exact .nil
  have hopening : Token.Opening "COUNT(" := Token.opening_function "COUNT"
  unfold count
  split
  · exact .fault _
  · cases filter with
    | none => simpa using Framed.bracket hopening (hdistinct.append hstar)
    | some f =>
      have hf := hfilter f rfl
      cases s.features.countFilter with
      | true =>
        have hcount : Framed s .term false _ := .bracket hopening (hdistinct.append hstar)
        simpa using hcount.append (.bracket Token.opening_filter hf)
      | false =>
        have hcase : Framed s .clause false ([.text "CASE WHEN"] ++ f) :=
          (framed_word (by simp [Place.words])).append hf
        have hthen : Framed s .clause false ([.text "THEN"] ++ argument.getD [.text "1"]) :=
          (framed_word (by simp [Place.words])).append hone
        have hend : Framed s .clause false [.text "END"] := framed_word (by simp [Place.words])
        simpa using Framed.bracket hopening
          (((hdistinct.append hcase).append hthen).append hend)

theorem framed_noRows (s : Spelling) : Framed s .clause false (noRows s) := by
  have hwhere : Framed s .clause false [.text "WHERE 1 = 0"] := framed_word (by simp [Place.words])
  unfold noRows
  split
  · exact (framed_word (by simp [Place.words])).append hwhere
  · exact hwhere

theorem framed_collectionTest (s : Spelling) (style : CollectionTest) (key : Key)
    (es : List Expr) (h : ∀ part ∈ parts, Framed s .term false part) :
    Framed s .term false (collectionTest s style key es parts) := by
  unfold collectionTest
  split
  · next e d =>
    have hempty : Framed s .clause false (.text "SELECT NULL" :: noRows s) :=
      (framed_word (by simp [Place.words])).append (framed_noRows s)
    have hrows : Framed s .clause false
        [.each key [.cell 0] (.text "SELECT NULL" :: noRows s) ", "] :=
      .each key (.cell 0) hempty
        (by simp [Token.ofSeparator, Token.isBracket, Token.opens, Place.admits])
    have hopening : Token.Opening "IN (" := Token.opening_of_mem (by simp)
    have hlist : Framed s .term false _ := .bracket hopening hrows
    exact (framed_parensIf _ (h d (by simp))).append hlist
  · exact .fault _
  · exact .fault _
  · refine .each key (framed_intercalate (framed_word (by simp [Place.words])) fun part hpart => ?_)
      (framed_word (by simp [Place.words]))
      (by simp [Token.ofSeparator, Token.isBracket, Token.opens, Place.admits])
    obtain ⟨i, hi, rfl⟩ := List.mem_mapIdx.1 hpart
    rw [List.getElem_zipWith]
    have hequals : Framed s .term false [.text "=", .cell i] :=
      (framed_word (by simp [Place.words])).append (.cell i)
    exact (framed_parensIf _ (h _ (List.getElem_mem _))).append hequals

theorem framed_qualifiedName (s : Spelling) (table : Table) :
    Framed s .clause false (qualifiedName s table) := by
  refine .append ?_ (.name table.name)
  split
  · exact .nil
  · next schema _ =>
    split
    · refine .append ?_ (.hole _ rfl)
      split
      · cases schema.catalog with
        | none => exact .nil
        | some c => exact .hole _ rfl
      · exact .nil
    · exact .nil

theorem framed_hint (s : Spelling) (derived : Bool) (h : IndexHint) :
    Framed s .clause false (hint s derived h) := by
  unfold hint
  extract_lets form
  have hform : Framed s .clause false form := by
    unfold form
    split
    · exact .fault _
    · have hname : Framed s .clause false [ident s h.index] := .name h.index
      exact .bracket (Token.opening_function "USE INDEX ") hname
    · exact (framed_word (by simp [Place.words])).append (.name h.index)
  cases derived with
  | true => exact .fault _
  | false =>
    cases h.when? with
    | none => exact hform
    | some key => exact .choice key .nil hform

theorem framed_hintsOn (s : Spelling) (derived : Bool) (hints : List IndexHint) (t : TableId) :
    Framed s .clause false (hintsOn s derived hints t) := by
  unfold hintsOn
  induction hints.filter (·.table == t) with
  | nil => exact .nil
  | cons h hints ih =>
    rw [List.flatMap_cons]
    exact (framed_hint s derived h).append ih

theorem framed_introduce (labels : List TableLabel) (h : Framed s p b ds) :
    Framed s p b (labels.map .introduce ++ ds) := by
  induction labels with
  | nil => exact h
  | cons label labels ih => exact .introduce label ih

theorem framed_optionalClause {keyword : String} (hk : Framed s .clause false [.text keyword])
    {filter : Option (List Draft)} (h : ∀ part ∈ filter, Framed s .clause false part) :
    Framed s .clause false (optionalClause keyword filter) := by
  cases filter with
  | none => exact .nil
  | some part => exact framed_clause (hk.append (h part rfl))

theorem framed_listClause {keyword : String} (hk : Framed s .clause false [.text keyword])
    (h : ∀ part ∈ parts, Framed s .clause false part) :
    Framed s .clause false (listClause keyword parts) := by
  unfold listClause
  split
  · exact .nil
  · exact framed_clause (hk.append (framed_commas .other h))

theorem framed_projected (h : Framed s .clause false d) (label : Option String) :
    Framed s .clause false (projected s d label) := by
  refine h.append ?_
  cases label with
  | none => exact .nil
  | some name => exact (framed_word (by simp [Place.words])).append (.name name)

theorem framed_lock (s : Spelling) (l : Option Lock) : Framed s .clause false (lock s l) := by
  cases l with
  | none => exact .nil
  | some l =>
    simp only [lock]
    split
    · exact framed_clause (framed_word (by cases l <;> simp [Place.words, Lock.sql]))
    · exact .fault _

end Clauses

end Draft

open Draft

section Statements

variable {s : Spelling}

mutual

theorem Expr.framed_draft : ∀ e : Expr, Framed s .term false (e.draft s)
  | .value v => .literal v
  | .column t name => .column t name
  | .param v => .param v
  | .inline _ => .hole _ rfl
  | .typeId _ => .hole _ rfl
  | .and es => framed_conjunction es (Expr.framed_draftEach es)
  | .or es => framed_disjunction (Expr.framed_draftEach es)
  | .not e => .bracket (Token.opening_of_mem (by simp)) e.framed_draft
  | .binary _ lhs rhs => framed_comparison lhs.framed_draft rhs.framed_draft
  | .isNull negated e =>
    (framed_parensIf _ e.framed_draft).append
      (framed_word (by cases negated <;> simp [Place.words]))
  | .like negated e pattern =>
    (framed_parensIf _ e.framed_draft).append
      (.append (framed_word (by cases negated <;> simp [Place.words]))
        (framed_parensIf _ pattern.framed_draft))
  | .inList e list =>
    framed_membership e.framed_draft fun part hpart =>
      (Expr.framed_draftEach list part hpart).asClause
  | .inQuery e q =>
    (framed_parensIf _ e.framed_draft).append
      (framed_enclosed (Token.opening_of_mem (by simp)) q.framed_draft)
  | .inCollection style es key => framed_collectionTest s style key es (Expr.framed_draftEach es)
  | .existsRow negated q =>
    framed_enclosed (Token.opening_of_mem (by cases negated <;> simp)) q.framed_draft
  | .count distinct argument filter =>
    framed_count s distinct (Expr.framed_draftOption argument) (Expr.framed_draftOption filter)
  | .call name arguments =>
    .bracket (Token.opening_function name) (framed_commas .other fun part hpart =>
      (Expr.framed_draftEach arguments part hpart).asClause)
  | .record fields =>
    framed_parens (framed_commas .other fun part hpart =>
      (Expr.framed_draftEach fields part hpart).asClause)
  | .subquery q => framed_enclosed (Token.opening_of_mem (by simp)) q.framed_draft
  | .choice key main alternative => .choice key main.framed_draft alternative.framed_draft

theorem Expr.framed_draftEach :
    ∀ es : List Expr, ∀ part ∈ Expr.draftEach s es, Framed s .term false part
  | [], _, h => nomatch h
  | e :: es, part, h => by
    rcases List.mem_cons.1 h with rfl | h
    · exact e.framed_draft
    · exact Expr.framed_draftEach es part h

theorem Expr.framed_draftOption :
    ∀ e : Option Expr, ∀ part ∈ Expr.draftOption s e, Framed s .clause false part
  | none, _, h => nomatch h
  | some e, _, rfl => e.framed_draft.asClause

theorem Query.framed_draft : ∀ q : Query, Framed s .query true (q.draft s)
  | ⟨body, orderBy, limit, lock⟩ => by
    refine .append (.append (.append body.framed_draft ?_) ?_) ?_
    · exact (framed_listClause (framed_word (by simp [Place.words]))
        (OrderTerm.framed_draftEach orderBy)).asQuery
    · exact (Limit.framed_draftOption limit).asQuery
    · exact (framed_lock s lock).asQuery

theorem OrderTerm.framed_draftEach :
    ∀ terms : List OrderTerm, ∀ part ∈ OrderTerm.draftEach s terms, Framed s .clause false part
  | [], _, h => nomatch h
  | ⟨e, direction⟩ :: terms, part, h => by
    rcases List.mem_cons.1 h with rfl | h
    · refine e.framed_draft.asClause.append ?_
      cases direction with
      | none => exact .nil
      | some d => exact framed_word (by cases d <;> simp [Place.words, Direction.sql])
    · exact OrderTerm.framed_draftEach terms part h

theorem Limit.framed_draftOption :
    ∀ limit : Option Limit, Framed s .clause false (Limit.draftOption s limit)
  | none => .nil
  | some ⟨count, offset⟩ => by
    have hlimit : Framed s .clause false (.text "LIMIT" :: count.draft s) :=
      (framed_word (by simp [Place.words])).append count.framed_draft.asClause
    refine framed_clause (hlimit.append ?_)
    have hoffset := Expr.framed_draftOption offset
    split
    · exact .nil
    · next d hd => exact (framed_word (by simp [Place.words])).append (hoffset d hd)

theorem QueryBody.framed_draft : ∀ body : QueryBody, Framed s .query true (body.draft s)
  | .select select => select.framed_draft.asQuery
  | .setOp _ [] => .fault _
  | .setOp op (⟨body, orderBy, limit, lock⟩ :: operands) => by
    simp only [QueryBody.draft]
    split
    · exact .fault _
    · refine .append ?_ (Query.framed_draftOperands op operands)
      split
      · exact .scope .operand body.framed_draft
      · exact .fault _

/-- Operands after the first. -/
theorem Query.framed_draftOperands (op : SetOp) :
    ∀ operands : List Query, Framed s .query false (Query.draftOperands s op false operands)
  | [] => .nil
  | ⟨body, orderBy, limit, lock⟩ :: operands => by
    refine .append ?_ (Query.framed_draftOperands op operands)
    split
    · refine .append ?_ (.scope .operand body.framed_draft.forget)
      exact framed_clause (.append (framed_word (by cases op <;> simp [Place.words, SetOp.sql]))
        (framed_clause .nil))
    · exact .fault _

theorem Select.framed_draft : ∀ select : Select, Framed s .clause true (select.draft s)
  | ⟨distinct, projection, tables, filter, groupBy, having, hints⟩ => by
    have hfilter := Expr.framed_draftOption filter
    have hhaving := Expr.framed_draftOption having
    have hgroup part hpart := (Expr.framed_draftEach groupBy part hpart).asClause
    have hprojection := Projected.framed_draftEach projection
    have htables := JoinedTable.framed_draftEach hints tables
    simp only [Select.draft]
    split
    · exact .fault _
    · simp only [List.append_assoc]
      refine framed_introduce _ ?_
      split
      · refine (Framed.select rfl).append (.append ?distinct (.append ?projection
          (.append ?tables (.append ?filter (.append ?group ?having)))))
        case distinct =>
          split
          · exact framed_word (by simp [Place.words])
          · exact .nil
        case projection => exact .group (framed_commas .column hprojection)
        case tables =>
          split
          · split
            · exact framed_clause (framed_word (by simp [Place.words]))
            · exact .nil
          · exact framed_clause (.append (framed_word (by simp [Place.words]))
              (framed_commas .other htables))
        case filter => exact framed_optionalClause (framed_word (by simp [Place.words])) hfilter
        case group => exact framed_listClause (framed_word (by simp [Place.words])) hgroup
        case having => exact framed_optionalClause (framed_word (by simp [Place.words])) hhaving
      · exact .fault _

theorem Projected.framed_draftEach :
    ∀ items : List Projected, ∀ part ∈ Projected.draftEach s items, Framed s .clause false part
  | [], _, h => nomatch h
  | ⟨e, label⟩ :: items, part, h => by
    rcases List.mem_cons.1 h with rfl | h
    · exact framed_projected e.framed_draft.asClause label
    · exact Projected.framed_draftEach items part h

theorem JoinedTable.framed_draftEach (hints : List IndexHint) :
    ∀ tables : List JoinedTable, ∀ part ∈ JoinedTable.draftEach s hints tables,
      Framed s .clause false part
  | [], _, h => nomatch h
  | ⟨table, joins⟩ :: tables, part, h => by
    rcases List.mem_cons.1 h with rfl | h
    · exact (table.framed_draft hints).append (Join.framed_draftAll hints joins)
    · exact JoinedTable.framed_draftEach hints tables part h

theorem Join.framed_draftAll (hints : List IndexHint) :
    ∀ joins : List Join, Framed s .clause false (Join.draftAll s hints joins)
  | [] => .nil
  | ⟨kind, table, constraint⟩ :: joins => by
    have hconstraint := Expr.framed_draftOption constraint
    refine .append ?_ (Join.framed_draftAll hints joins)
    split
    · next found hfound =>
      obtain ⟨cause, rfl⟩ := exists_of_joinFault? hfound
      exact .fault cause
    · have htable : Framed s .clause false (.text kind.sql :: table.draft s hints) :=
        (framed_word (by cases kind <;> simp [Place.words, JoinKind.sql])).append
          (table.framed_draft hints)
      refine (framed_clause htable).append ?_
      split
      · exact .nil
      · next d hd => exact (framed_word (by simp [Place.words])).append (hconstraint d hd)

theorem TableUse.framed_draft (hints : List IndexHint) :
    ∀ t : TableUse, Framed s .clause false (t.draft s hints)
  | .base id table _ =>
    (framed_qualifiedName s table).append
      ((Framed.tableName _).append (framed_hintsOn s false hints id))
  | .derived id q =>
    (framed_enclosed (Token.opening_of_mem (by simp)) q.framed_draft).asClause.append
      ((Framed.tableName _).append (framed_hintsOn s true hints id))

end

end Statements

end PreparedSql
