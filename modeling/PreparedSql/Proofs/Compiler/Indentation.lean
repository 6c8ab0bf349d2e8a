import PreparedSql.Proofs.Statement.Lines

/-!
# Indentation matches nesting

With lines broken, every line that an execution of a compiled statement writes begins with four
spaces for each indented group around its first piece. There is one exception: a query that rows are
inserted from is in an indented group that is entered on an empty line, and its first line stays
where it is, one level further out than its other lines.
-/

namespace PreparedSql.Compiler

variable {c : Compiler} {statement : Statement} {t : Template} {a : Arguments} {sql : Sql}

theorem stands_sheet (hpretty : c.options.pretty = true) (h : c.compile statement = .ok t)
    (a : Arguments) : (t.sheet a).Stands statement.insertsQuery 0 .begun := by
  obtain ⟨ns, hr⟩ := resolves_of_compile h
  have hbreaks : t.format.pretty = true := by
    rw [format_of_compile h]
    exact hpretty
  rw [← format_of_compile h] at hr
  rw [Template.sheet, hbreaks]
  cases hquery : statement.insertsQuery with
  | false =>
    have hcarries : Fragment.Carries ⟨false, false, t.spell a, a, t.format.quote⟩ .margin
        t.fragments .begun :=
      statement.carries_draft (by simp [Setting.Settled]) hquery _ _ _ hr
    exact hcarries none [] 0 {} (by simp) (Sheet.stands_empty false)
  | true =>
    obtain ⟨i, q, rfl, hsource⟩ := Statement.exists_of_insertsQuery hquery
    exact Insert.stands_draft hsource (t.spell a) a hr

/-- Indentation matches nesting. If no text that is written has a line break in it, every line of
what an execution of a compiled statement gives begins with exactly the margin of its first piece,
four spaces for each indented group around it, and everything on the line is at the same depth. Only
the first line of a query that rows are inserted from is one level further out. -/
theorem indented_lines (hpretty : c.options.pretty = true) (h : c.compile statement = .ok t)
    (hfill : t.fill a = .ok sql) (htexts : ∀ x ∈ t.imprints a, '\n' ∉ x.text.toList) :
    ∃ s : Sheet, s.Lays (t.imprints a) sql.text ∧ s.Indented statement.insertsQuery := by
  have hlays := Template.sheet_lays hfill
  refine ⟨t.sheet a, hlays, (stands_sheet hpretty h a).indented hlays.sound ?_⟩
  rw [hlays.imprints]
  exact htexts

/-- A choice between a value and a subquery, a derived table, and a test of a subquery for each row
of a collection. -/
theorem indented_lines_nested :
    let c : Compiler := ⟨.postgresql, { pretty := true }⟩
    let inner : Query := .ofBody (.select
      { Select.empty with projection := [⟨.value (.text "x"), none⟩, ⟨.inline "more", none⟩] })
    let outer : Query := .ofBody (.select
      { Select.empty with
        projection := [⟨.choice "k" (.value .null) (.subquery inner), some "key"⟩]
        tables := [⟨.derived ⟨0⟩ inner, []⟩]
        filter := some (.inCollection .disjunction [.subquery inner] "ids") })
    let a : Arguments :=
      { inline := fun _ => some "now()", alternative := fun _ => true
        rows := fun _ => [[.value .null], [.inline "7"]] }
    let text : String :=
      "SELECT\n    (\n        SELECT\n            'x',\n            now()\n    ) AS \"key\"\n" ++
        "FROM (\n    SELECT\n        'x',\n        now()\n) \"a\"\n" ++
        "WHERE (\n    SELECT\n        'x',\n        now()\n) = $1 OR " ++
        "(\n    SELECT\n        'x',\n        now()\n) = 7"
    c.options.pretty = true ∧ ∃ t, c.compile (.query outer) = .ok t ∧
      t.fill a = .ok ⟨text, [.null]⟩ ∧ (∀ x ∈ t.imprints a, '\n' ∉ x.text.toList) ∧
      ∃ s : Sheet, s.Lays (t.imprints a) text ∧ s.Indented false := by
  intro c inner outer a text
  obtain ⟨t, hcompile, hfill, htexts⟩ := Draft.exists_ok_of_any
    (x := c.compile (.query outer)) (P := fun t => t.fill a = .ok ⟨text, [.null]⟩ ∧
      ∀ x ∈ t.imprints a, '\n' ∉ x.text.toList)
    (by decide +kernel)
  exact ⟨rfl, t, hcompile, hfill, htexts, indented_lines rfl hcompile hfill htexts⟩

/-- The word `SELECT` is inside of an indented group, and its line is not indented. -/
theorem inserted_query_outdented :
    let c : Compiler := ⟨.sqlite, { pretty := true }⟩
    let i : Insert :=
      { table := ⟨"t", none⟩
        columns := ["c"]
        source := .query (.ofBody (.select
          { Select.empty with projection := [⟨.value (.int32 1), none⟩] }))
        returning := [] }
    ∃ t, c.compile (.insert i) = .ok t ∧
      t.fill {} = .ok ⟨"INSERT INTO \"t\" (\"c\")\nSELECT\n        1\n", []⟩ ∧
      (t.imprints {}).map (fun x => (x.text, x.position.depth)) =
        [("INSERT INTO", 0), ("\"t\"", 0), ("(", 0), ("\"c\"", 0), (")", 0), ("SELECT", 1),
          ("1", 2)] := by
  intro c i
  exact Draft.exists_ok_of_any (by decide +kernel)

end PreparedSql.Compiler
