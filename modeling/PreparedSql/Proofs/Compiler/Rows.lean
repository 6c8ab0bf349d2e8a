import PreparedSql.Proofs.Compiler.Spacing
import PreparedSql.Proofs.Draft.Writing
import PreparedSql.Proofs.Reading.Token
import PreparedSql.Proofs.Template.Rows

/-!
# Rows in compiled statements

What a compiled statement repeats is written row by row, each row as if it stood alone. This needs
bodies that do not look back over what was written before them. With quoted names, expressions show
something before they close a parenthesis, unless they begin with a call of a function whose name
begins with one. Among the functions of a statement, none may have such a name.
-/

namespace PreparedSql

/-! ## First words -/

theorem Token.head?_of_numeric {s : String} (h : Token.numeric s = true) :
    s.toList.head? ≠ some ')' := by
  intro hhead
  simp only [Token.numeric, Bool.and_eq_true, List.all_eq_true] at h
  exact absurd (h.1 _ (List.mem_of_head? hhead)) (by decide)

theorem QuoteMark.head?_quote {q : QuoteMark} (hq : q ≠ .plain) (name : String) :
    (q.quote name).toList.head? ≠ some ')' := by
  cases q with
  | plain => exact absurd rfl hq
  | double | backtick => simp [quote, quoteChars, char?]

/-- Literals begin with a letter, a digit, a sign, a point or a quote. -/
theorem Value.head?_literal {d : Dialect} {v : Value} {sql : String} (h : v.literal d = .ok sql) :
    sql.toList.head? ≠ some ')' := by
  refine Token.of_literal h (by decide) (fun _ => Token.head?_of_numeric) ?_ ?_
  · simp [Literal.text]
  · intro b
    cases d <;> simp [Literal.bytes, Literal.bytesOpening]

namespace Draft

variable {s : Spelling}

/-- The first words of what stands by itself show something and do not look back. -/
theorem Wording.front (hq : s.quote ≠ .plain) {w : String}
    (h : Wording s (fun name => name.toList.head? ≠ some ')') w) : Front.ofToken w = .shown := by
  refine Front.ofToken_eq_shown (h.inked hq) ?_
  cases h with
  | word h =>
    have hall : ∀ w ∈ keywords, w.toList.head? ≠ some ')' := by decide +kernel
    exact hall w h
  | @call name h =>
    rw [String.toList_append]
    cases hname : name.toList with
    | nil => decide
    | cons c cs => simpa [hname] using h
  | ident name => exact QuoteMark.head?_quote hq name
  | literal h => exact Value.head?_literal h

/-! ## Fronts of drafts -/

/-- However the draft is written, no repetition in it looks back. -/
def RowsApart (s : Spelling) (ds : List Draft) : Prop :=
  ∀ bare ns fs ns', Resolves s.quote bare ns ds fs ns' → Fragment.RowsApart fs

/-- The draft itself does not look back either. -/
def StandsApart (s : Spelling) (ds : List Draft) : Prop :=
  ∀ bare ns fs ns', Resolves s.quote bare ns ds fs ns' →
    Fragment.RowsApart fs ∧ Fragment.frontAll fs ≠ .reaching

/-- A text that shows something may be followed by anything. -/
theorem standsApart_text {w : String} (hw : Front.ofToken w = .shown) {fs : List Fragment}
    (h : Fragment.RowsApart fs) :
    Fragment.RowsApart (.text w :: fs) ∧ Fragment.frontAll (.text w :: fs) ≠ .reaching := by
  constructor
  · exact (Fragment.RowsApart.single (f := .text w) rfl rfl .nil).append h
  · simp [Fragment.frontAll, Fragment.front, hw, Front.orElse]

theorem front_quote {q : QuoteMark} (hq : q ≠ .plain) (name : String) :
    Front.ofToken (q.quote name) = .shown :=
  Front.ofToken_eq_shown (Inked.quote hq name) (QuoteMark.head?_quote hq name)

theorem front_column {q : QuoteMark} (hq : q ≠ .plain) (table name : String) :
    Front.ofToken (q.column table name) = .shown := by
  refine Front.ofToken_eq_shown (Inked.column hq table name) ?_
  have hhead := QuoteMark.head?_quote hq table
  cases htable : (q.quote table).toList with
  | nil => simp [QuoteMark.column, htable]
  | cons c cs => simpa [QuoteMark.column, htable] using hhead

/-- What stands by itself in statements with quoted names shows something before it closes a
parenthesis, and so does each row of what is repeated. -/
theorem pervasive_rowsApart (hq : s.quote ≠ .plain) :
    Pervasive s (fun name => name.toList.head? ≠ some ')') (RowsApart s) (StandsApart s) where
  weaken h bare ns fs ns' hfs := (h bare ns fs ns' hfs).1
  nil _ _ _ _ h := by
    cases h
    exact ⟨.nil, Front.blank_ne_reaching⟩
  append hds hes bare ns _ ns' h := by
    obtain ⟨first, mid, rest, hfirst, hrest, rfl⟩ := h.append_inv
    exact (hds _ _ _ _ hfirst).append (hes _ _ _ _ hrest)
  concat hds hes bare ns _ ns' h := by
    obtain ⟨first, mid, rest, hfirst, hrest, rfl⟩ := h.append_inv
    obtain ⟨hrows, hfront⟩ := hds _ _ _ _ hfirst
    obtain ⟨hrows', hfront'⟩ := hes _ _ _ _ hrest
    refine ⟨hrows.append hrows', ?_⟩
    rw [Fragment.frontAll_append]
    exact Front.orElse_ne_reaching hfront hfront'
  lead hw hds _ _ _ _ h := by
    cases h with
    | text _ hrest => exact standsApart_text (hw.front hq) (hds _ _ _ _ hrest)
  closing _ _ _ _ h := by
    obtain ⟨rfl, -⟩ := h.text_inv
    exact .single rfl rfl .nil
  line _ _ _ _ h := by
    obtain ⟨rfl, -⟩ := h.delimiter_inv
    exact .single rfl rfl .nil
  comma _ _ _ _ _ h := by
    obtain ⟨rfl, -⟩ := h.delimiter_inv
    exact .single rfl rfl .nil
  qualifier _ _ _ _ _ h := by
    obtain ⟨rfl, -⟩ := h.hole_inv
    exact .single rfl rfl .nil
  column _ name _ _ _ _ h := by
    obtain ⟨⟨-, rfl⟩ | ⟨-, table, -, rfl⟩, -⟩ := h.column_inv
    · exact standsApart_text (front_quote hq name) .nil
    · exact standsApart_text (front_column hq table name) .nil
  introduce _ _ _ _ _ h := by
    obtain ⟨rfl, -⟩ := h.introduce_inv
    exact .nil
  tableName _ _ _ _ _ h := by
    obtain ⟨⟨-, rfl⟩ | ⟨-, rfl⟩, -⟩ := h.tableName_inv
    · exact .nil
    · exact .single rfl rfl .nil
  group hds _ _ _ _ h := by
    obtain ⟨inner, mid, hinner, rfl, -⟩ := h.group_inv
    exact .single rfl rfl (hds _ _ _ _ hinner)
  scope hds _ _ _ _ h := by
    obtain ⟨mid, hinner, -⟩ := h.scope_inv
    exact hds _ _ _ _ hinner
  choice hmain halternative _ _ _ _ h := by
    obtain ⟨main, mid, alternative, hm, ha, rfl⟩ := h.choice_inv
    obtain ⟨hrows, hfront⟩ := hmain _ _ _ _ hm
    obtain ⟨hrows', hfront'⟩ := halternative _ _ _ _ ha
    refine ⟨.choice hrows hrows', ?_⟩
    exact Front.orElse_ne_reaching (Front.either_ne_reaching hfront hfront')
      Front.blank_ne_reaching
  fault _ _ _ _ _ h := by cases h
  hole _ _ _ _ _ _ h := by
    obtain ⟨rfl, -⟩ := h.hole_inv
    exact ⟨.single rfl rfl .nil, Front.blank_ne_reaching⟩
  param _ _ _ _ _ h := by
    obtain ⟨rfl, -⟩ := h.param_inv
    exact ⟨.single rfl rfl .nil, Front.blank_ne_reaching⟩
  cell _ _ _ _ _ h := by
    obtain ⟨rfl, -⟩ := h.cell_inv
    exact ⟨.single rfl rfl .nil, Front.blank_ne_reaching⟩
  each _ hcell hbody hempty _ _ _ _ h := by
    obtain ⟨body, mid, empty, hb, he, rfl⟩ := h.each_inv
    obtain ⟨hrows, hfront⟩ := hbody _ _ _ _ hb
    obtain ⟨hrows', hfront'⟩ := hempty _ _ _ _ he
    obtain ⟨index, hindex⟩ := hcell
    refine ⟨.each hrows hrows' hfront hfront' ⟨index, hb.cell_mem hindex⟩, ?_⟩
    exact Front.orElse_ne_reaching (Front.either_ne_reaching hfront hfront')
      Front.blank_ne_reaching

end Draft

namespace Compiler

variable {c : Compiler} {statement : Statement} {t : Template} {key : Key}
  {body empty : List Fragment} {between : String}

theorem rowsApart_compile (hq : c.options.quoteNames = true)
    (hfunctions : ∀ name ∈ statement.functions, name.toList.head? ≠ some ')')
    (h : c.compile statement = .ok t) : Fragment.RowsApart t.fragments := by
  obtain ⟨ns, hresolves⟩ := resolves_of_compile h
  have hapart := Draft.pervasive_rowsApart (s := c.spelling) (quote_ne_plain hq)
  exact statement.pervasive_draft hapart hfunctions _ _ _ _ hresolves

/-- Rows of a compiled statement are apart, whether it is condensed or not. -/
theorem apart_of_mem (hq : c.options.quoteNames = true)
    (hfunctions : ∀ name ∈ statement.functions, name.toList.head? ≠ some ')')
    (ht : c.compile statement = .ok t ∨ c.prepare statement = .ok t)
    (hin : .each key body empty between ∈ Fragment.partsAll t.fragments) (a : Arguments)
    (row : Option RowAt) :
    Step.Apart t.format.pretty (Fragment.walkAll a t.format.quote row body) ∧
      Step.Apart t.format.pretty (Fragment.walkAll a t.format.quote row empty) := by
  rcases ht with ht | ht
  · exact Fragment.apart_of_mem (rowsApart_compile hq hfunctions ht) row hin
  · obtain ⟨source, hsource, rfl⟩ := exists_of_prepare ht
    have hrows := rowsApart_compile hq hfunctions hsource
    have hspaced := wellSpaced_compile hq hsource
    have hraw : source.condensed = false := by
      obtain ⟨_, -, rfl⟩ := exists_of_compile hsource
      rfl
    rw [Template.condense, if_neg (by simp [hraw])] at hin ⊢
    exact Fragment.apart_of_mem_condensed hrows row hspaced hin

/-- Rows are written one by one. In a statement with quoted names whose functions have no name that
begins with a closing parenthesis, a repetition writes, behind at most one space, what its rows
write when each of them is alone on an empty page. It binds their values in turn up to the first row
that fails, and then fails as this row does. Without rows it writes its empty case.

What a row writes alone does not depend on its place. It does not depend on the other rows either,
unless there is a repetition of the same collection inside. -/
theorem rows_stand_alone (hq : c.options.quoteNames = true)
    (hfunctions : ∀ name ∈ statement.functions, name.toList.head? ≠ some ')')
    (ht : c.compile statement = .ok t ∨ c.prepare statement = .ok t)
    (hmarkers : t.format.markers = .positional)
    (hin : .each key body empty between ∈ Fragment.partsAll t.fragments) (a : Arguments) :
    let alone (a : Arguments) (indent : Nat) (row : Option RowAt) (fs : List Fragment) :=
      Fragment.alone t.format.pretty indent a t.format.quote row fs
    (∀ sink, t.fillInto a sink =
      ((alone a 0 none t.fragments).1, sink.append (alone a 0 none t.fragments).2)) ∧
    ∀ (p : Page) (row : Option RowAt),
      let out := Step.output t.format.pretty p
        (Fragment.walk a t.format.quote row (.each key body empty between))
      let behind (text : String) : Page := (p.gap.write text).settle false
      (p.gap.ink = p.ink ∨ p.gap.ink = ' ' :: p.ink) ∧
      (a.rows key = [] → out = (alone a p.indent row empty).map behind) ∧
      (a.rows key ≠ [] → out = (Output.joined between ((a.rows key).map fun cells =>
        alone a p.indent (some ⟨key, 0, cells⟩) body)).map behind) ∧
      ∀ index cells,
        alone a p.indent (some ⟨key, index, cells⟩) body =
          alone a p.indent (some ⟨key, 0, cells⟩) body ∧
        ((∀ body' empty' between', .each key body' empty' between' ∉ Fragment.partsAll body) →
          ∀ rows, alone (a.setRows key rows) p.indent (some ⟨key, index, cells⟩) body =
            alone a p.indent (some ⟨key, index, cells⟩) body) := by
  intro alone
  have hapart := apart_of_mem hq hfunctions ht hin a
  refine ⟨Template.fillInto_positional hmarkers a, fun p row => ⟨?_, ?_, ?_, ?_⟩⟩
  · unfold Page.gap
    split
    · exact .inr rfl
    · exact .inl rfl
  · intro hrows
    exact Fragment.output_each_nil hrows (hapart row).2 between p
  · intro hrows
    exact Fragment.output_each_rows hrows (fun row => (hapart row).1) between p
  · intro index cells
    refine ⟨Fragment.alone_index p.indent key index 0 cells, fun hbody rows => ?_⟩
    exact congrArg (Step.alone t.format.pretty p.indent)
      (Fragment.walkAll_setRows rows (some ⟨key, index, cells⟩) hbody)

/-- A call with a choice and a subquery inside, over broken lines. The subquery repeats another
collection. -/
theorem rows_stand_alone_nested :
    let c : Compiler := ⟨.postgresql, { pretty := true, markers := some .positional }⟩
    let members : Query := .ofBody (.select
      { Select.empty with
        projection := [⟨.value (.bool true), none⟩]
        tables := [⟨.base ⟨1⟩ ⟨"member", none⟩ none, []⟩]
        filter := some (.inCollection .list [.column ⟨1⟩ "owner"] "owners") })
    let statement : Statement := .query (.ofBody (.select
      { Select.empty with
        projection := [⟨.value (.int32 1), none⟩]
        filter := some (.inCollection .disjunction
          [.call "max" [.choice "k" (.existsRow false members) (.param ⟨0⟩)]] "teams") }))
    let body : List Fragment :=
      [.text "max(",
        .choice "k"
          [.text ("EXISTS (\n    SELECT\n        TRUE\n    FROM \"member\" \"a\"\n" ++
              "    WHERE \"a\".\"owner\" IN ("),
            .each "owners" [.cell 0] [.text "SELECT NULL WHERE 1 = 0"] ", ", .text ")\n)"]
          [.hole (.param ⟨0⟩ "p0")],
        .text ") = ", .cell 0]
    let a : Arguments :=
      { rows := fun key =>
          if key = "teams" then [[.value .null], [.inline "7"]] else [[.value (.int64 3)]] }
    ∃ t, c.prepare statement = .ok t ∧ t.format.markers = .positional ∧
      .each "teams" body [.text "1 = 0"] " OR " ∈ Fragment.partsAll t.fragments ∧
      ∀ (p : Page) (row : Option RowAt),
        Step.output t.format.pretty p (Fragment.walk a t.format.quote row
            (.each "teams" body [.text "1 = 0"] " OR ")) =
          (Output.joined " OR " ((a.rows "teams").map fun cells =>
            Fragment.alone t.format.pretty p.indent (a.setRows "teams" [cells]) t.format.quote
              (some ⟨"teams", 0, cells⟩) body)).map fun text =>
                (p.gap.write text).settle false := by
  intro c members statement body a
  obtain ⟨t, ht, hmarkers, hin⟩ := Draft.exists_ok_of_any (x := c.prepare statement)
    (P := fun t => t.format.markers = .positional ∧
      .each "teams" body [.text "1 = 0"] " OR " ∈ Fragment.partsAll t.fragments)
    (by decide +kernel)
  obtain ⟨-, hrows⟩ := rows_stand_alone rfl (by decide) (.inr ht) hmarkers hin a
  have hother (body' empty' : List Fragment) (between' : String) :
      .each "teams" body' empty' between' ∉ Fragment.partsAll body := by
    simp [body, Fragment.partsAll, Fragment.parts]
  refine ⟨t, ht, hmarkers, hin, fun p row => ?_⟩
  obtain ⟨-, -, hsome, hsingle⟩ := hrows p row
  rw [hsome (by decide)]
  simp only [fun cells => (hsingle 0 cells).2 hother [cells]]

/-- Two tests against one collection, one inside the other. The inner test goes through all rows
for every row of the outer one, so rows on their own do not write what they write together. -/
theorem rows_share_collection :
    ¬ ∀ (c : Compiler) (statement : Statement) (t : Template) (key : Key)
        (body empty : List Fragment) (between : String) (a : Arguments),
      c.options.quoteNames = true →
      (∀ name ∈ statement.functions, name.toList.head? ≠ some ')') →
      c.compile statement = .ok t → t.format.markers = .positional →
      .each key body empty between ∈ Fragment.partsAll t.fragments → a.rows key ≠ [] →
      ∀ (p : Page) (row : Option RowAt),
        Step.output t.format.pretty p
            (Fragment.walk a t.format.quote row (.each key body empty between)) =
          (Output.joined between ((a.rows key).map fun cells =>
            Fragment.alone t.format.pretty p.indent (a.setRows key [cells]) t.format.quote
              (some ⟨key, 0, cells⟩) body)).map fun text => (p.gap.write text).settle false := by
  intro hall
  let c : Compiler := ⟨.sqlite, { markers := some .positional }⟩
  let test : Expr := .inCollection .list [.value (.int32 1)] "ids"
  let statement : Statement := .query (.ofBody (.select
    { Select.empty with
      projection := [⟨.value (.int32 1), none⟩]
      filter := some (.inCollection .disjunction [test] "ids") }))
  let body : List Fragment :=
    [.text "1", .text "IN (",
      .each "ids" [.cell 0] [.text "SELECT NULL", .text "WHERE 1 = 0"] ", ", .text ")",
      .text "=", .cell 0]
  let a : Arguments := { rows := fun _ => [[.value (.int32 1)], [.value (.int32 2)]] }
  obtain ⟨t, ht, hmarkers, hin, hvalues⟩ := Draft.exists_ok_of_any (x := c.compile statement)
    (P := fun t => t.format.markers = .positional ∧
      .each "ids" body [.text "1 = 0"] " OR " ∈ Fragment.partsAll t.fragments ∧
      (Step.output t.format.pretty {} (Fragment.walk a t.format.quote none
          (.each "ids" body [.text "1 = 0"] " OR "))).2 ≠
        (Output.joined " OR " ((a.rows "ids").map fun cells =>
          Fragment.alone t.format.pretty 0 (a.setRows "ids" [cells]) t.format.quote
            (some ⟨"ids", 0, cells⟩) body)).2)
    (by decide +kernel)
  exact hvalues (congrArg Prod.snd
    (hall c statement t "ids" body _ _ a rfl (by decide) ht hmarkers hin (by decide) {} none))

end Compiler

end PreparedSql
