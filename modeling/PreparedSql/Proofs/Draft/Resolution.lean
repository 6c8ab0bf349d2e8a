import PreparedSql.Compiler

/-!
# Resolution as a relation

`Draft.Resolves` says what giving names to a draft amounts to, one rule for each
kind of first part: which fragments are left, and how the names change on the
way. There is no rule for a fault, and none for a column whose table is not in
scope. Statements about written fragments are proved by induction over it.
-/

namespace PreparedSql

/-- The names inside a scope that is being entered. -/
def Names.entered (ns : Names) : ScopeKind → Names
  | .operand | .nested => ns.openScope
  | .target t => ((ns.openScope.setAliasing false).aliasOf t).2

namespace Draft

/-- Induction over a list of drafts and the lists inside it. -/
@[elab_as_elim]
theorem listInduction {motive : List Draft → Prop} (nil : motive [])
    (text : ∀ s ds, motive ds → motive (.text s :: ds))
    (delimiter : ∀ s kind ds, motive ds → motive (.delimiter s kind :: ds))
    (group : ∀ children ds, motive children → motive ds → motive (.group children :: ds))
    (hole : ∀ h unnamed ds, motive ds → motive (.hole h unnamed :: ds))
    (param : ∀ p ds, motive ds → motive (.param p :: ds))
    (column : ∀ table name ds, motive ds → motive (.column table name :: ds))
    (introduce : ∀ t ds, motive ds → motive (.introduce t :: ds))
    (tableName : ∀ t ds, motive ds → motive (.tableName t :: ds))
    (scope : ∀ kind children ds, motive children → motive ds → motive (.scope kind children :: ds))
    (choice : ∀ key main alternative ds, motive main → motive alternative → motive ds →
      motive (.choice key main alternative :: ds))
    (each : ∀ key body empty between ds, motive body → motive empty → motive ds →
      motive (.each key body empty between :: ds))
    (cell : ∀ index ds, motive ds → motive (.cell index :: ds))
    (fault : ∀ cause ds, motive ds → motive (.fault cause :: ds)) (ds : List Draft) :
    motive ds := by
  have ih (es : List Draft) (_ : sizeOf es < sizeOf ds) : motive es :=
    listInduction nil text delimiter group hole param column introduce tableName scope choice each
      cell fault es
  cases ds with
  | nil => exact nil
  | cons d ds =>
    have rest : motive ds := ih ds (by simp only [List.cons.sizeOf_spec]; omega)
    cases d with
    | text s => exact text s ds rest
    | delimiter s kind => exact delimiter s kind ds rest
    | group children => exact group children ds (ih _ (by simp; omega)) rest
    | hole h unnamed => exact hole h unnamed ds rest
    | param p => exact param p ds rest
    | column table name => exact column table name ds rest
    | introduce t => exact introduce t ds rest
    | tableName t => exact tableName t ds rest
    | scope kind children => exact scope kind children ds (ih _ (by simp; omega)) rest
    | choice key main alternative =>
      exact choice key main alternative ds (ih _ (by simp; omega)) (ih _ (by simp; omega)) rest
    | each key body empty between =>
      exact each key body empty between ds (ih _ (by simp; omega)) (ih _ (by simp; omega)) rest
    | cell index => exact cell index ds rest
    | fault cause => exact fault cause ds rest
termination_by sizeOf ds

/-- `Resolves q bare ns ds fs ns'`: with the names `ns` given before, and the
columns of `bare` standing alone, the drafts `ds` are written as `fs` and leave
the names `ns'`. -/
inductive Resolves (q : QuoteMark) :
    Option TableId → Names → List Draft → List Fragment → Names → Prop where
  | nil {bare ns} : Resolves q bare ns [] [] ns
  | text {bare ns ds fs ns'} (s : String) : Resolves q bare ns ds fs ns' →
      Resolves q bare ns (.text s :: ds) (.text s :: fs) ns'
  | delimiter {bare ns ds fs ns'} (s : String) (kind : DelimiterKind) :
      Resolves q bare ns ds fs ns' →
      Resolves q bare ns (.delimiter s kind :: ds) (.delimiter s kind :: fs) ns'
  | group {bare ns children inner mid ds fs ns'} :
      Resolves q bare ns.indented children inner mid → Resolves q bare mid.outdented ds fs ns' →
      Resolves q bare ns (.group children :: ds) (.group true inner :: fs) ns'
  | hole {bare ns ds fs ns'} (h : Hole) (unnamed : h.isParam = false) :
      Resolves q bare ns ds fs ns' →
      Resolves q bare ns (.hole h unnamed :: ds) (.hole h :: fs) ns'
  | param {bare ns ds fs ns'} (p : Param) : Resolves q bare (ns.param p).2 ds fs ns' →
      Resolves q bare ns (.param p :: ds) (.hole (.param p (ns.param p).1) :: fs) ns'
  /-- A column of the statement's own target. -/
  | bareColumn {ns ds fs ns'} (t : TableId) (name : String) :
      Resolves q (some t) ns ds fs ns' →
      Resolves q (some t) ns (.column t name :: ds) (.text (q.quote name) :: fs) ns'
  /-- A column seen through the alias of its table. -/
  | column {bare ns ds fs ns'} {t : TableId} {table : String} (name : String) :
      bare ≠ some t → ns.lookup t = some table → Resolves q bare ns ds fs ns' →
      Resolves q bare ns (.column t name :: ds) (.text (q.column table name) :: fs) ns'
  | introduce {bare ns ds fs ns'} (t : TableLabel) : Resolves q bare (ns.aliasOf t).2 ds fs ns' →
      Resolves q bare ns (.introduce t :: ds) fs ns'
  /-- A table that goes by its own name. -/
  | ownName {bare ns ds fs ns'} {t : TableLabel} : t.table = some (ns.aliasOf t).1 →
      Resolves q bare (ns.aliasOf t).2 ds fs ns' →
      Resolves q bare ns (.tableName t :: ds) fs ns'
  | tableName {bare ns ds fs ns'} {t : TableLabel} : t.table ≠ some (ns.aliasOf t).1 →
      Resolves q bare (ns.aliasOf t).2 ds fs ns' →
      Resolves q bare ns (.tableName t :: ds) (.text (q.quote (ns.aliasOf t).1) :: fs) ns'
  | scope {bare ns children inner mid ds fs ns'} (kind : ScopeKind) :
      Resolves q (kind.bare bare) (ns.entered kind) children inner mid →
      Resolves q bare (mid.closeScope ns.mark) ds fs ns' →
      Resolves q bare ns (.scope kind children :: ds) (inner ++ fs) ns'
  | choice {bare ns main main' mid alternative alternative' mid' ds fs ns'} (key : Key) :
      Resolves q bare ns main main' mid → Resolves q bare mid alternative alternative' mid' →
      Resolves q bare mid' ds fs ns' →
      Resolves q bare ns (.choice key main alternative :: ds)
        (.choice key main' alternative' :: fs) ns'
  | each {bare ns body body' mid empty empty' mid' ds fs ns'} (key : Key) (between : String) :
      Resolves q bare ns body body' mid → Resolves q bare mid empty empty' mid' →
      Resolves q bare mid' ds fs ns' →
      Resolves q bare ns (.each key body empty between :: ds)
        (.each key body' empty' between :: fs) ns'
  | cell {bare ns ds fs ns'} (index : Nat) : Resolves q bare ns ds fs ns' →
      Resolves q bare ns (.cell index :: ds) (.cell index :: fs) ns'

/-- A run that succeeds goes through its parts in order. -/
theorem exists_of_bind_eq_ok {ε α β : Type} {x : Except ε α} {f : α → Except ε β} {r : β}
    (h : (x >>= f) = .ok r) : ∃ a, x = .ok a ∧ f a = .ok r := by
  cases x with
  | error e => cases h
  | ok a => exact ⟨a, rfl, h⟩

/-- A run that is found to succeed with some property does so. -/
theorem exists_ok_of_any {ε α : Type} {x : Except ε α} {P : α → Prop} [DecidablePred P]
    (h : x.toOption.any (fun a => decide (P a)) = true) : ∃ a, x = .ok a ∧ P a := by
  cases x with
  | error e => cases h
  | ok a => exact ⟨a, rfl, of_decide_eq_true h⟩

/-- The names in which a scope is entered. -/
theorem run_enter (kind : ScopeKind) (ns : Names) :
    (Naming.enter kind).run ns.openScope = .ok ((), ns.entered kind) := by
  cases kind <;> rfl

theorem run_resolveAll_cons (q : QuoteMark) (bare : Option TableId) (d : Draft) (ds : List Draft)
    (ns : Names) :
    (resolveAll q bare (d :: ds)).run ns = ((resolve q bare d).run ns >>= fun first =>
      (resolveAll q bare ds).run first.2 >>= fun rest => .ok (first.1 ++ rest.1, rest.2)) := rfl

theorem run_group (q : QuoteMark) (bare : Option TableId) (ds : List Draft) (ns : Names) :
    (resolve q bare (.group ds)).run ns = ((resolveAll q bare ds).run ns.indented >>= fun inner =>
      .ok ([.group true inner.1], inner.2.outdented)) := by
  simp only [resolve, Naming.indented, StateT.run_bind, StateT.run_modify, StateT.run_pure,
    bind_assoc, pure_bind]
  rfl

theorem run_scope (q : QuoteMark) (bare : Option TableId) (kind : ScopeKind) (ds : List Draft)
    (ns : Names) :
    (resolve q bare (.scope kind ds)).run ns =
      ((resolveAll q (kind.bare bare) ds).run (ns.entered kind) >>= fun inner =>
        .ok (inner.1, inner.2.closeScope ns.mark)) := by
  simp only [resolve, Naming.inScope, StateT.run_bind, StateT.run_get, StateT.run_modify,
    StateT.run_pure, bind_assoc, pure_bind, run_enter]
  rfl

theorem run_choice (q : QuoteMark) (bare : Option TableId) (key : Key)
    (main alternative : List Draft) (ns : Names) :
    (resolve q bare (.choice key main alternative)).run ns =
      ((resolveAll q bare main).run ns >>= fun first =>
        (resolveAll q bare alternative).run first.2 >>= fun second =>
          .ok ([.choice key first.1 second.1], second.2)) := rfl

theorem run_each (q : QuoteMark) (bare : Option TableId) (key : Key) (body empty : List Draft)
    (between : String) (ns : Names) :
    (resolve q bare (.each key body empty between)).run ns =
      ((resolveAll q bare body).run ns >>= fun first =>
        (resolveAll q bare empty).run first.2 >>= fun second =>
          .ok ([.each key first.1 second.1 between], second.2)) := rfl

/-- The first part is written, and then the rest with the names it leaves. -/
theorem exists_of_run_cons {q : QuoteMark} {bare : Option TableId} {ns ns' : Names} {d : Draft}
    {ds : List Draft} {fs : List Fragment}
    (h : (resolveAll q bare (d :: ds)).run ns = .ok (fs, ns')) :
    ∃ first mid rest, (resolve q bare d).run ns = .ok (first, mid) ∧
      (resolveAll q bare ds).run mid = .ok (rest, ns') ∧ fs = first ++ rest := by
  rw [run_resolveAll_cons] at h
  obtain ⟨⟨first, mid⟩, hfirst, h⟩ := exists_of_bind_eq_ok h
  obtain ⟨⟨rest, last⟩, hrest, h⟩ := exists_of_bind_eq_ok h
  cases h
  exact ⟨first, mid, rest, hfirst, hrest, rfl⟩

theorem run_column (q : QuoteMark) (bare : Option TableId) (t : TableId) (name : String)
    (ns : Names) :
    (resolve q bare (.column t name)).run ns =
      if bare = some t then .ok ([.text (q.quote name)], ns)
      else match ns.lookup t with
        | some table => .ok ([.text (q.column table name)], ns)
        | none => .error (.malformed (.columnOutOfScope name)) := by
  by_cases hbare : bare = some t
  · simp only [resolve, Naming.column, if_pos hbare]
    rfl
  · simp only [resolve, Naming.column, if_neg hbare]
    cases hlookup : ns.lookup t <;>
      simp only [StateT.run_bind, StateT.run_get, pure_bind, hlookup] <;> rfl

theorem run_tableName (q : QuoteMark) (bare : Option TableId) (t : TableLabel) (ns : Names) :
    (resolve q bare (.tableName t)).run ns =
      .ok (if t.table = some (ns.aliasOf t).1 then [] else [.text (q.quote (ns.aliasOf t).1)],
        (ns.aliasOf t).2) := rfl

/-- What a successful run writes, it writes by the rules. -/
theorem resolves_of_run {q : QuoteMark} {bare : Option TableId} {ns ns' : Names}
    {ds : List Draft} {fs : List Fragment}
    (h : (resolveAll q bare ds).run ns = .ok (fs, ns')) : Resolves q bare ns ds fs ns' := by
  induction ds using listInduction generalizing bare ns ns' fs with
  | nil =>
    cases h
    exact .nil
  | text s ds ih =>
    obtain ⟨_, _, _, ⟨⟩, hrest, rfl⟩ := exists_of_run_cons h
    exact .text s (ih hrest)
  | delimiter s kind ds ih =>
    obtain ⟨_, _, _, ⟨⟩, hrest, rfl⟩ := exists_of_run_cons h
    exact .delimiter s kind (ih hrest)
  | group children ds inner ih =>
    obtain ⟨_, _, _, hgroup, hrest, rfl⟩ := exists_of_run_cons h
    rw [run_group] at hgroup
    obtain ⟨⟨cs, mid⟩, hinner, ⟨⟩⟩ := exists_of_bind_eq_ok hgroup
    exact .group (inner hinner) (ih hrest)
  | hole hole unnamed ds ih =>
    obtain ⟨_, _, _, ⟨⟩, hrest, rfl⟩ := exists_of_run_cons h
    exact .hole hole unnamed (ih hrest)
  | param p ds ih =>
    obtain ⟨_, _, _, ⟨⟩, hrest, rfl⟩ := exists_of_run_cons h
    exact .param p (ih hrest)
  | column t name ds ih =>
    obtain ⟨_, _, _, hcolumn, hrest, rfl⟩ := exists_of_run_cons h
    rw [run_column] at hcolumn
    by_cases hbare : bare = some t
    · subst hbare
      rw [if_pos rfl] at hcolumn
      cases hcolumn
      exact .bareColumn t name (ih hrest)
    · rw [if_neg hbare] at hcolumn
      cases hlookup : ns.lookup t with
      | none =>
        rw [hlookup] at hcolumn
        cases hcolumn
      | some table =>
        rw [hlookup] at hcolumn
        cases hcolumn
        exact .column name hbare hlookup (ih hrest)
  | introduce t ds ih =>
    obtain ⟨_, _, _, ⟨⟩, hrest, rfl⟩ := exists_of_run_cons h
    exact .introduce t (ih hrest)
  | tableName t ds ih =>
    obtain ⟨_, _, _, hname, hrest, rfl⟩ := exists_of_run_cons h
    rw [run_tableName] at hname
    cases hname
    by_cases hown : t.table = some (ns.aliasOf t).1
    · rw [if_pos hown]
      exact .ownName hown (ih hrest)
    · rw [if_neg hown]
      exact .tableName hown (ih hrest)
  | scope kind children ds inner ih =>
    obtain ⟨_, _, _, hscope, hrest, rfl⟩ := exists_of_run_cons h
    rw [run_scope] at hscope
    obtain ⟨⟨cs, mid⟩, hinner, ⟨⟩⟩ := exists_of_bind_eq_ok hscope
    exact .scope kind (inner hinner) (ih hrest)
  | choice key main alternative ds first second ih =>
    obtain ⟨_, _, _, hchoice, hrest, rfl⟩ := exists_of_run_cons h
    rw [run_choice] at hchoice
    obtain ⟨⟨cs, mid⟩, hmain, hchoice⟩ := exists_of_bind_eq_ok hchoice
    obtain ⟨⟨cs', mid'⟩, halternative, ⟨⟩⟩ := exists_of_bind_eq_ok hchoice
    exact .choice key (first hmain) (second halternative) (ih hrest)
  | each key body empty between ds first second ih =>
    obtain ⟨_, _, _, heach, hrest, rfl⟩ := exists_of_run_cons h
    rw [run_each] at heach
    obtain ⟨⟨cs, mid⟩, hbody, heach⟩ := exists_of_bind_eq_ok heach
    obtain ⟨⟨cs', mid'⟩, hempty, ⟨⟩⟩ := exists_of_bind_eq_ok heach
    exact .each key between (first hbody) (second hempty) (ih hrest)
  | cell index ds ih =>
    obtain ⟨_, _, _, ⟨⟩, hrest, rfl⟩ := exists_of_run_cons h
    exact .cell index (ih hrest)
  | fault cause ds ih =>
    obtain ⟨_, _, _, ⟨⟩, _, _⟩ := exists_of_run_cons h

/-- Where the first part and the rest can be written, so can both. -/
theorem run_cons {q : QuoteMark} {bare : Option TableId} {ns mid ns' : Names} {d : Draft}
    {ds : List Draft} (first : List Fragment) {rest : List Fragment}
    (hfirst : (resolve q bare d).run ns = .ok (first, mid))
    (hrest : (resolveAll q bare ds).run mid = .ok (rest, ns')) :
    (resolveAll q bare (d :: ds)).run ns = .ok (first ++ rest, ns') := by
  rw [run_resolveAll_cons, hfirst]
  show (resolveAll q bare ds).run mid >>= _ = _
  rw [hrest]
  rfl

/-- What can be written by the rules, a run writes. -/
theorem Resolves.run {q : QuoteMark} {bare : Option TableId} {ns ns' : Names} {ds : List Draft}
    {fs : List Fragment} (h : Resolves q bare ns ds fs ns') :
    (resolveAll q bare ds).run ns = .ok (fs, ns') := by
  have hok {α β : Type} (a : α) (f : α → Except Cause β) : (Except.ok a >>= f) = f a := rfl
  induction h with
  | nil => rfl
  | text _ _ ih | delimiter _ _ _ ih | hole _ _ _ ih | param _ _ ih | cell _ _ ih =>
    exact run_cons [_] rfl ih
  | introduce t _ ih => exact run_cons [] rfl ih
  | group _ _ inner ih =>
    refine run_cons [_] ?_ ih
    rw [run_group, inner]
    rfl
  | bareColumn t name _ ih =>
    refine run_cons [_] ?_ ih
    rw [run_column, if_pos rfl]
  | column name hbare hlookup _ ih =>
    refine run_cons [_] ?_ ih
    rw [run_column, if_neg hbare, hlookup]
  | ownName hown _ ih =>
    refine run_cons [] ?_ ih
    rw [run_tableName, if_pos hown]
  | tableName hown _ ih =>
    refine run_cons [_] ?_ ih
    rw [run_tableName, if_neg hown]
  | scope kind _ _ inner ih =>
    refine run_cons _ ?_ ih
    rw [run_scope, inner]
    rfl
  | choice key _ _ _ first second ih =>
    refine run_cons [_] ?_ ih
    rw [run_choice, first, hok, second]
    rfl
  | each key between _ _ _ first second ih =>
    refine run_cons [_] ?_ ih
    rw [run_each, first, hok, second]
    rfl

end Draft

/-- A compiled statement is its fragments, with the spacing not resolved yet. -/
theorem Compiler.exists_of_compile {c : Compiler} {statement : Statement} {t : Template}
    (h : c.compile statement = .ok t) :
    ∃ fs, c.fragments statement = .ok fs ∧ t = ⟨fs, c.format, false⟩ := by
  unfold compile at h
  split at h
  · next fs hfs =>
    cases h
    exact ⟨fs, hfs, rfl⟩
  · cases h

/-- The fragments of a compiled statement are written by the rules, starting from
the reserved names. -/
theorem Compiler.resolves_of_compile {c : Compiler} {statement : Statement} {t : Template}
    (h : c.compile statement = .ok t) :
    ∃ ns, Draft.Resolves c.format.quote none c.names (statement.draft c.spelling) t.fragments
      ns := by
  obtain ⟨_, hfragments, rfl⟩ := exists_of_compile h
  obtain ⟨⟨fs, ns⟩, hrun, ⟨⟩⟩ := Draft.exists_of_bind_eq_ok hfragments
  exact ⟨ns, Draft.resolves_of_run hrun⟩

theorem Compiler.format_of_compile {c : Compiler} {statement : Statement} {t : Template}
    (h : c.compile statement = .ok t) : t.format = c.format := by
  obtain ⟨_, -, rfl⟩ := exists_of_compile h
  rfl

theorem Compiler.prepare_of_compile {c : Compiler} {statement : Statement} {t : Template}
    (h : c.compile statement = .ok t) : c.prepare statement = .ok t.condense := by
  rw [prepare, h]
  rfl

theorem Compiler.exists_of_prepare {c : Compiler} {statement : Statement} {t : Template}
    (h : c.prepare statement = .ok t) :
    ∃ source, c.compile statement = .ok source ∧ source.condense = t := by
  cases hcompile : c.compile statement with
  | error failure => simp [prepare, hcompile, Except.map] at h
  | ok source => exact ⟨source, rfl, by simpa [prepare, hcompile, Except.map] using h⟩

theorem Compiler.prepare_of_error {c : Compiler} {statement : Statement} {failure : Failure}
    (h : c.compile statement = .error failure) : c.prepare statement = .error failure := by
  rw [prepare, h]
  rfl

/-- A statement compiles if its draft can be written by the rules. -/
theorem Compiler.exists_compile_of_resolves {c : Compiler} {statement : Statement}
    {fs : List Fragment} {ns : Names}
    (h : Draft.Resolves c.format.quote none c.names (statement.draft c.spelling) fs ns) :
    ∃ t, c.compile statement = .ok t := by
  have hfragments : c.fragments statement = .ok fs := by
    simp only [fragments, StateT.run'_eq, h.run]
    rfl
  exact ⟨⟨fs, c.format, false⟩, by rw [compile, hfragments]⟩

end PreparedSql
