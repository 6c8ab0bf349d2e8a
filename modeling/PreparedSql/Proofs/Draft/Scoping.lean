import PreparedSql.Proofs.Draft.Writing
import PreparedSql.Proofs.Naming.Fresh

/-!
# Scopes

Where a column stands decides which tables it may refer to. `Draft.Scoped` lists, for a
draft, the references to tables and what is listed around each: level by level the
tables of the statements that enclose it. `Draft.Laid` does the same for a draft that
was given names, with the name of every table that is listed and the fragments that
every reference was written as.

A draft that can be given names is laid out such that its references agree with the
names around them.
-/

namespace PreparedSql

/-- What refers to a table: a column of it, or the place where it is listed. -/
inductive Reference where
  | column (t : TableId) (name : String)
  | table (t : TableLabel)

/-- A reference where it stands. -/
structure Site (α : Type) where
  reference : Reference
  /-- The target whose columns stand alone. -/
  target : Option TableId
  /-- What is listed around it, innermost first. -/
  levels : List (List α)

/-- A table that is listed, and the name it goes by. -/
abbrev NamedTable := TableId × String

namespace Site

/-- Forgets the names. -/
def unnamed (site : Site NamedTable) : Site TableId :=
  ⟨site.reference, site.target, site.levels.map (·.map Prod.fst)⟩

/-- The name that a table goes by at the innermost level that lists it. -/
def innermost (levels : List (List NamedTable)) (t : TableId) : Option String :=
  levels.findSome? (·.lookup t)

/-- How a reference is to be written. A column of the target stands alone, any other
behind the name of its table. A table that is listed is followed by its name, unless
that is the table's own. -/
def Spelled (q : QuoteMark) : Site NamedTable → List Fragment → Prop
  | ⟨.column t name, target, levels⟩, fs =>
    (target = some t ∧ fs = [.text (q.quote name)]) ∨
      target ≠ some t ∧ ∃ table, innermost levels t = some table ∧
        fs = [.text (q.column table name)]
  | ⟨.table t, _, levels⟩, fs =>
    ∃ level ∈ levels.head?, ∃ table, (t.id, table) ∈ level ∧
      fs = if t.table = some table then [] else [.text (q.quote table)]

/-- Tables listed around the reference are told apart by their names, in any case. -/
def Unambiguous (site : Site NamedTable) : Prop :=
  ∀ x ∈ site.levels.flatten, ∀ y ∈ site.levels.flatten,
    x = y ∨ x.1 ≠ y.1 ∧ Text.lower x.2 ≠ Text.lower y.2

end Site

/-- The tables that a scope lists from its start. -/
def ScopeKind.listed : ScopeKind → List TableId
  | .operand | .nested => []
  | .target t => [t.id]

namespace Draft

/-- Drafts that have to do with no table. -/
def isPlain : Draft → Bool
  | .text _ | .delimiter _ _ | .hole _ _ | .param _ | .cell _ => true
  | _ => false

/-- `Scoped target outer level ds level' sites`: inside the levels `outer`, and with
`level` listed before them, the drafts `ds` refer to tables at `sites` and leave
`level'` listed. -/
inductive Scoped : Option TableId → List (List TableId) → List TableId → List Draft →
    List TableId → List (Site TableId) → Prop where
  | nil {target outer level} : Scoped target outer level [] level []
  | append {target outer level ds mid sites es level' sites'} :
      Scoped target outer level ds mid sites → Scoped target outer mid es level' sites' →
      Scoped target outer level (ds ++ es) level' (sites ++ sites')
  | plain {target outer level} {d : Draft} : d.isPlain = true →
      Scoped target outer level [d] level []
  | column {target outer level} (t : TableId) (name : String) :
      Scoped target outer level [.column t name] level [⟨.column t name, target, level :: outer⟩]
  | introduce {target outer level} (t : TableLabel) :
      Scoped target outer level [.introduce t] (level ++ [t.id]) []
  | tableName {target outer level} {t : TableLabel} : t.id ∈ level →
      Scoped target outer level [.tableName t] level [⟨.table t, target, level :: outer⟩]
  | group {target outer level ds level' sites} : Scoped target outer level ds level' sites →
      Scoped target outer level [.group ds] level' sites
  | scope {target outer level ds inner sites} (kind : ScopeKind) :
      Scoped (kind.bare target) (level :: outer) kind.listed ds inner sites →
      Scoped target outer level [.scope kind ds] level sites
  | choice {target outer level main mid sites alternative level' sites'} (key : Key) :
      Scoped target outer level main mid sites →
      Scoped target outer mid alternative level' sites' →
      Scoped target outer level [.choice key main alternative] level' (sites ++ sites')
  | each {target outer level body mid sites empty level' sites'} (key : Key) (between : String) :
      Scoped target outer level body mid sites →
      Scoped target outer mid empty level' sites' →
      Scoped target outer level [.each key body empty between] level' (sites ++ sites')
  /-- Of what cannot be written, anything may be said. -/
  | fault {target outer level ds level' sites} (cause : Cause) :
      Scoped target outer level (.fault cause :: ds) level' sites

/-- `Laid target outer level ds fs level' refs`: the fragments `fs` are what the drafts
`ds` were written as, where `refs` lists the references with what each was written as,
and the names of tables are those that were listed. -/
inductive Laid : Option TableId → List (List NamedTable) → List NamedTable → List Draft →
    List Fragment → List NamedTable → List (Site NamedTable × List Fragment) → Prop where
  | nil {target outer level} : Laid target outer level [] [] level []
  | append {target outer level ds fs mid refs es gs level' refs'} :
      Laid target outer level ds fs mid refs → Laid target outer mid es gs level' refs' →
      Laid target outer level (ds ++ es) (fs ++ gs) level' (refs ++ refs')
  | text {target outer level} (s : String) : Laid target outer level [.text s] [.text s] level []
  | delimiter {target outer level} (s : String) (kind : DelimiterKind) :
      Laid target outer level [.delimiter s kind] [.delimiter s kind] level []
  | hole {target outer level} (h : Hole) (unnamed : h.isParam = false) :
      Laid target outer level [.hole h unnamed] [.hole h] level []
  | param {target outer level} (p : Param) (name : String) :
      Laid target outer level [.param p] [.hole (.param p name)] level []
  | cell {target outer level} (index : Nat) :
      Laid target outer level [.cell index] [.cell index] level []
  | column {target outer level} (t : TableId) (name : String) (fs : List Fragment) :
      Laid target outer level [.column t name] fs level
        [(⟨.column t name, target, level :: outer⟩, fs)]
  | introduce {target outer level} (t : TableLabel) (name : String) :
      Laid target outer level [.introduce t] [] (level ++ [(t.id, name)]) []
  | tableName {target outer level} (t : TableLabel) (fs : List Fragment) :
      Laid target outer level [.tableName t] fs level [(⟨.table t, target, level :: outer⟩, fs)]
  | group {target outer level ds fs level' refs} : Laid target outer level ds fs level' refs →
      Laid target outer level [.group ds] [.group true fs] level' refs
  | scope {target outer level start ds fs inner refs} (kind : ScopeKind) :
      start.map Prod.fst = kind.listed →
      Laid (kind.bare target) (level :: outer) start ds fs inner refs →
      Laid target outer level [.scope kind ds] fs level refs
  | choice {target outer level main fs mid refs alternative gs level' refs'} (key : Key) :
      Laid target outer level main fs mid refs →
      Laid target outer mid alternative gs level' refs' →
      Laid target outer level [.choice key main alternative] [.choice key fs gs] level'
        (refs ++ refs')
  | each {target outer level body fs mid refs empty gs level' refs'} (key : Key)
      (between : String) :
      Laid target outer level body fs mid refs →
      Laid target outer mid empty gs level' refs' →
      Laid target outer level [.each key body empty between] [.each key fs gs between] level'
        (refs ++ refs')

end Draft

/-! ## Names and levels -/

namespace Names

/-- The names `ns'` come from `ns` by giving further aliases. -/
structure Grows (ns ns' : Names) : Prop where
  aliases : ns.aliases <+: ns'.aliases
  taken : ns.taken ⊆ ns'.taken

namespace Grows

variable {ns ns' ns'' : Names}

theorem refl (ns : Names) : Grows ns ns := ⟨List.prefix_rfl, List.Subset.refl _⟩

theorem trans (h : Grows ns ns') (h' : Grows ns' ns'') : Grows ns ns'' :=
  ⟨h.aliases.trans h'.aliases, List.Subset.trans h.taken h'.taken⟩

theorem aliasOf (ns : Names) (t : TableLabel) : Grows ns (ns.aliasOf t).2 := by
  rcases ns.aliasOf_cases t with ⟨name, -, heq⟩ | ⟨-, -, haliases, htaken⟩
  · rw [heq]
    exact refl ns
  · exact ⟨haliases ▸ List.prefix_append _ _, htaken ▸ List.subset_append_left _ _⟩

theorem entered (ns : Names) (kind : ScopeKind) : Grows ns (ns.entered kind) := by
  have hopen (aliasing : Bool) : Grows ns { ns with aliasing } :=
    ⟨List.prefix_rfl, List.Subset.refl _⟩
  cases kind with
  | operand => exact hopen _
  | nested => exact hopen _
  | target t => exact (hopen false).trans (aliasOf _ t)

/-- The aliases visible before a scope are visible again when it closes. -/
theorem closeScope (h : Grows ns ns') : (ns'.closeScope ns.mark).aliases = ns.aliases := by
  obtain ⟨rest, hrest⟩ := h.aliases
  show ns'.aliases.take ns.aliases.length = ns.aliases
  rw [← hrest, List.take_left]

end Grows

/-- The visible aliases are the names of the tables listed at some level. They are
taken, and tables are told apart by them. -/
structure Represents (ns : Names) (levels : List (List NamedTable)) : Prop where
  shown : ∀ x, x ∈ ns.aliases ↔ x ∈ levels.flatten
  taken : ∀ x ∈ ns.aliases, Text.lower x.2 ∈ ns.taken
  distinct : ∀ x ∈ ns.aliases, ∀ y ∈ ns.aliases,
    x = y ∨ x.1 ≠ y.1 ∧ Text.lower x.2 ≠ Text.lower y.2

theorem mem_of_lookup {l : List NamedTable} {t : TableId} {name : String}
    (h : l.lookup t = some name) : (t, name) ∈ l := by
  obtain ⟨before, after, rfl, -⟩ := List.lookup_eq_some_iff.1 h
  simp

namespace Represents

variable {ns ns' : Names} {level : List NamedTable} {outer levels : List (List NamedTable)}
  {t : TableId} {name : String}

theorem congr (h : Represents ns levels) (haliases : ns'.aliases = ns.aliases)
    (htaken : ns.taken ⊆ ns'.taken) : Represents ns' levels where
  shown := haliases ▸ h.shown
  taken x hx := htaken (h.taken x (haliases ▸ hx))
  distinct := haliases ▸ h.distinct

theorem lookup_eq (h : Represents ns levels) (hin : (t, name) ∈ levels.flatten) :
    ns.lookup t = some name := by
  have hmem := (h.shown _).2 hin
  cases hlookup : ns.lookup t with
  | none =>
    have := List.lookup_eq_none_iff.1 hlookup _ hmem
    simp at this
  | some name' =>
    rcases h.distinct _ (mem_of_lookup hlookup) _ hmem with heq | ⟨hne, -⟩
    · rw [(Prod.mk.inj heq).2]
    · exact absurd rfl hne

/-- The alias that is visible for a table is its name at the innermost level. -/
theorem innermost_eq (h : Represents ns levels) (hlookup : ns.lookup t = some name) :
    Site.innermost levels t = some name := by
  have hin := (h.shown _).1 (mem_of_lookup hlookup)
  cases hinnermost : Site.innermost levels t with
  | none =>
    obtain ⟨level, hlevel, hin⟩ := List.mem_flatten.1 hin
    have hnone := List.findSome?_eq_none_iff.1 hinnermost level hlevel
    have := List.lookup_eq_none_iff.1 hnone _ hin
    simp at this
  | some name' =>
    obtain ⟨level, hlevel, hfound⟩ := List.exists_of_findSome?_eq_some hinnermost
    have hlookup' := h.lookup_eq (List.mem_flatten.2 ⟨level, hlevel, mem_of_lookup hfound⟩)
    rw [← hlookup, hlookup']

theorem unambiguous (h : Represents ns levels) (reference : Reference)
    (target : Option TableId) : Site.Unambiguous ⟨reference, target, levels⟩ :=
  fun x hx y hy => h.distinct x ((h.shown x).2 hx) y ((h.shown y).2 hy)

/-- A table that is listed anew is given a name of its own, or keeps the one it has. -/
theorem listing (h : Represents ns (level :: outer)) (t : TableLabel) :
    Represents (ns.aliasOf t).2 ((level ++ [(t.id, (ns.aliasOf t).1)]) :: outer) := by
  rcases ns.aliasOf_cases t with ⟨name, hlookup, heq⟩ | ⟨hlookup, hfree, haliases, htaken⟩
  · have hin := (h.shown _).1 (mem_of_lookup hlookup)
    rw [heq]
    refine ⟨fun x => ?_, h.taken, h.distinct⟩
    rw [h.shown]
    simp only [List.flatten_cons, List.mem_append, List.mem_singleton] at hin ⊢
    constructor
    · rintro (hx | hx)
      · exact .inl (.inl hx)
      · exact .inr hx
    · rintro ((hx | rfl) | hx)
      · exact .inl hx
      · exact hin
      · exact .inr hx
  · generalize (ns.aliasOf t).1 = name at hfree haliases htaken
    have hnew : ∀ x ∈ ns.aliases, x.1 ≠ t.id ∧ Text.lower x.2 ≠ Text.lower name := by
      intro x hx
      have hid := List.lookup_eq_none_iff.1 hlookup x hx
      refine ⟨fun heq => by simp [heq] at hid, fun heq => ?_⟩
      have := h.taken x hx
      rw [heq] at this
      simp [isTaken, this] at hfree
    refine ⟨fun x => ?_, ?_, ?_⟩
    · rw [haliases, List.mem_append, h.shown]
      simp only [List.flatten_cons, List.mem_append]
      exact or_right_comm
    · rw [haliases, htaken]
      intro x hx
      rcases List.mem_append.1 hx with hx | hx
      · exact List.mem_append_left _ (h.taken x hx)
      · obtain rfl := List.mem_singleton.1 hx
        simp
    · rw [haliases]
      intro x hx y hy
      rcases List.mem_append.1 hx with hx | hx <;> rcases List.mem_append.1 hy with hy | hy
      · exact h.distinct x hx y hy
      · obtain rfl := List.mem_singleton.1 hy
        exact .inr (hnew x hx)
      · obtain rfl := List.mem_singleton.1 hx
        exact .inr ⟨(hnew y hy).1.symm, (hnew y hy).2.symm⟩
      · rw [List.mem_singleton.1 hx, List.mem_singleton.1 hy]
        exact .inl rfl

/-- A table that is listed already is called by its name there. -/
theorem listed (h : Represents ns (level :: outer)) {t : TableLabel}
    (hin : t.id ∈ level.map Prod.fst) :
    (t.id, (ns.aliasOf t).1) ∈ level ∧ (ns.aliasOf t).2 = ns := by
  obtain ⟨⟨id, name⟩, hname, hid⟩ := List.mem_map.1 hin
  obtain rfl : id = t.id := hid
  have hlookup := h.lookup_eq (List.mem_append_left _ hname)
  rcases ns.aliasOf_cases t with ⟨name', hlookup', heq⟩ | ⟨hlookup', -⟩
  · obtain rfl : name = name' := Option.some.inj (hlookup.symm.trans hlookup')
    rw [heq]
    exact ⟨hname, rfl⟩
  · rw [hlookup] at hlookup'
    cases hlookup'

/-- A scope starts with its target, if it has one. -/
theorem entered (h : Represents ns levels) (kind : ScopeKind) :
    ∃ start, start.map Prod.fst = kind.listed ∧ Represents (ns.entered kind) (start :: levels) := by
  have hopen (aliasing : Bool) : Represents { ns with aliasing } ([] :: levels) :=
    ⟨h.shown, h.taken, h.distinct⟩
  cases kind with
  | operand => exact ⟨[], rfl, hopen _⟩
  | nested => exact ⟨[], rfl, hopen _⟩
  | target t => exact ⟨_, rfl, (hopen false).listing t⟩

end Represents

end Names

/-! ## References agree with the names around them -/

namespace Draft

variable {q : QuoteMark}

theorem Resolves.grows {bare : Option TableId} {ns ns' : Names} {ds : List Draft}
    {fs : List Fragment} (h : Resolves q bare ns ds fs ns') : ns.Grows ns' := by
  induction h with
  | nil => exact .refl _
  | text _ _ ih | delimiter _ _ _ ih | hole _ _ _ ih | bareColumn _ _ _ ih | column _ _ _ _ ih
  | cell _ _ ih => exact ih
  | group _ _ inner ih =>
    exact ⟨inner.aliases.trans ih.aliases, List.Subset.trans inner.taken ih.taken⟩
  | param p _ ih => exact ⟨Names.aliases_param _ p ▸ ih.aliases, Names.taken_param _ p ▸ ih.taken⟩
  | introduce t _ ih | ownName _ _ ih | tableName _ _ ih =>
    exact (Names.Grows.aliasOf _ _).trans ih
  | scope kind _ _ inner ih =>
    have hscope := (Names.Grows.entered _ kind).trans inner
    exact ⟨hscope.closeScope ▸ ih.aliases, List.Subset.trans hscope.taken ih.taken⟩
  | choice _ _ _ _ first second ih | each _ _ _ _ _ first second ih =>
    exact first.trans (second.trans ih)

/-- What has to do with no table is written as it is. -/
theorem Resolves.plain_inv {target : Option TableId} {ns ns' : Names} {d : Draft}
    {fs : List Fragment} (hr : Resolves q target ns [d] fs ns') (hplain : d.isPlain = true)
    (outer : List (List NamedTable)) (level : List NamedTable) :
    Laid target outer level [d] fs level [] ∧ ns'.aliases = ns.aliases ∧ ns'.taken = ns.taken := by
  cases hr with
  | text s hrest =>
    cases hrest
    exact ⟨.text s, rfl, rfl⟩
  | delimiter s kind hrest =>
    cases hrest
    exact ⟨.delimiter s kind, rfl, rfl⟩
  | hole h unnamed hrest =>
    cases hrest
    exact ⟨.hole h unnamed, rfl, rfl⟩
  | param p hrest =>
    cases hrest
    exact ⟨.param p _, ns.aliases_param p, ns.taken_param p⟩
  | cell index hrest =>
    cases hrest
    exact ⟨.cell index, rfl, rfl⟩
  | _ => cases hplain

/-- A column is written as it should be where it stands. -/
theorem Resolves.column_spelled {target : Option TableId} {ns ns' : Names} {t : TableId}
    {name : String} {fs : List Fragment} {levels : List (List NamedTable)}
    (hr : Resolves q target ns [.column t name] fs ns') (hns : ns.Represents levels) :
    Site.Spelled q ⟨.column t name, target, levels⟩ fs ∧ ns' = ns := by
  obtain ⟨⟨hbare, rfl⟩ | ⟨hbare, table, hlookup, rfl⟩, rfl⟩ := hr.column_inv
  · exact ⟨.inl ⟨hbare, rfl⟩, rfl⟩
  · exact ⟨.inr ⟨hbare, table, hns.innermost_eq hlookup, rfl⟩, rfl⟩

/-- So is a table that is listed. -/
theorem Resolves.tableName_spelled {target : Option TableId} {ns ns' : Names} {t : TableLabel}
    {fs : List Fragment} {level : List NamedTable} {outer : List (List NamedTable)}
    (hr : Resolves q target ns [.tableName t] fs ns') (hns : ns.Represents (level :: outer))
    (hin : t.id ∈ level.map Prod.fst) :
    Site.Spelled q ⟨.table t, target, level :: outer⟩ fs ∧ ns' = ns := by
  obtain ⟨hname, hsame⟩ := hns.listed hin
  obtain ⟨⟨hown, rfl⟩ | ⟨hown, rfl⟩, rfl⟩ := hr.tableName_inv
  · exact ⟨⟨level, rfl, _, hname, (if_pos hown).symm⟩, hsame⟩
  · exact ⟨⟨level, rfl, _, hname, (if_neg hown).symm⟩, hsame⟩

/-- A draft that refers to tables at `sites` and can be given names. -/
theorem Scoped.laid {target : Option TableId} {outerIds : List (List TableId)}
    {ids ids' : List TableId} {ds : List Draft} {sites : List (Site TableId)}
    (h : Scoped target outerIds ids ds ids' sites) {ns ns' : Names} {fs : List Fragment}
    {outer : List (List NamedTable)} {level : List NamedTable}
    (hr : Resolves q target ns ds fs ns') (hns : ns.Represents (level :: outer))
    (houter : outer.map (·.map Prod.fst) = outerIds) (hlevel : level.map Prod.fst = ids) :
    ∃ level' refs, Laid target outer level ds fs level' refs ∧ level'.map Prod.fst = ids' ∧
      refs.map (·.1.unnamed) = sites ∧ (∀ r ∈ refs, r.1.Spelled q r.2 ∧ r.1.Unambiguous) ∧
      ns'.Represents (level' :: outer) := by
  induction h generalizing ns ns' fs outer level with
  | nil =>
    cases hr
    exact ⟨level, [], .nil, hlevel, rfl, by simp, hns⟩
  | append _ _ first second =>
    obtain ⟨fs, mid, gs, hfs, hgs, rfl⟩ := hr.append_inv
    obtain ⟨level₁, refs, hlaid, hlevel₁, hrefs, hright, hmid⟩ := first hfs hns houter hlevel
    obtain ⟨level₂, refs', hlaid', hlevel₂, hrefs', hright', hlast⟩ :=
      second hgs hmid houter hlevel₁
    refine ⟨level₂, refs ++ refs', hlaid.append hlaid', hlevel₂, ?_, ?_, hlast⟩
    · rw [List.map_append, hrefs, hrefs']
    · exact List.forall_mem_append.2 ⟨hright, hright'⟩
  | @plain _ _ _ d hplain =>
    obtain ⟨hlaid, haliases, htaken⟩ := hr.plain_inv hplain outer level
    refine ⟨level, [], hlaid, hlevel, rfl, by simp, hns.congr haliases ?_⟩
    rw [htaken]
    exact List.Subset.refl _
  | column t name =>
    obtain ⟨hspelled, rfl⟩ := hr.column_spelled hns
    refine ⟨level, _, .column t name fs, hlevel, ?_, ?_, hns⟩
    · simp [Site.unnamed, hlevel, houter]
    · exact List.forall_mem_singleton.2 ⟨hspelled, hns.unambiguous _ _⟩
  | introduce t =>
    obtain ⟨rfl, rfl⟩ := hr.introduce_inv
    refine ⟨_, [], .introduce t _, ?_, rfl, by simp, hns.listing t⟩
    rw [List.map_append, hlevel]
    rfl
  | @tableName target _ _ t hin =>
    obtain ⟨hspelled, rfl⟩ := hr.tableName_spelled hns (hlevel ▸ hin)
    refine ⟨level, _, .tableName t fs, hlevel, ?_, ?_, hns⟩
    · simp [Site.unnamed, hlevel, houter]
    · exact List.forall_mem_singleton.2 ⟨hspelled, hns.unambiguous _ _⟩
  | group _ inner =>
    obtain ⟨fs, mid, hinner, rfl, rfl⟩ := hr.group_inv
    obtain ⟨level', refs, hlaid, hlevel', hrefs, hright, hmid⟩ :=
      inner hinner (hns.congr rfl (List.Subset.refl _)) houter hlevel
    exact ⟨level', refs, .group hlaid, hlevel', hrefs, hright,
      hmid.congr rfl (List.Subset.refl _)⟩
  | scope kind _ inner =>
    obtain ⟨mid, hinner, rfl⟩ := hr.scope_inv
    obtain ⟨start, hstart, hentered⟩ := hns.entered kind
    obtain ⟨_, refs, hlaid, -, hrefs, hright, -⟩ :=
      inner hinner hentered (by rw [List.map_cons, hlevel, houter]) hstart
    have hscope := (Names.Grows.entered _ kind).trans hinner.grows
    exact ⟨level, refs, .scope kind hstart hlaid, hlevel, hrefs, hright,
      hns.congr hscope.closeScope hscope.taken⟩
  | choice key _ _ first second =>
    obtain ⟨main, mid, alternative, hmain, halternative, rfl⟩ := hr.choice_inv
    obtain ⟨level₁, refs, hlaid, hlevel₁, hrefs, hright, hmid⟩ := first hmain hns houter hlevel
    obtain ⟨level₂, refs', hlaid', hlevel₂, hrefs', hright', hlast⟩ :=
      second halternative hmid houter hlevel₁
    refine ⟨level₂, refs ++ refs', .choice key hlaid hlaid', hlevel₂, ?_,
      List.forall_mem_append.2 ⟨hright, hright'⟩, hlast⟩
    rw [List.map_append, hrefs, hrefs']
  | each key between _ _ first second =>
    obtain ⟨body, mid, empty, hbody, hempty, rfl⟩ := hr.each_inv
    obtain ⟨level₁, refs, hlaid, hlevel₁, hrefs, hright, hmid⟩ := first hbody hns houter hlevel
    obtain ⟨level₂, refs', hlaid', hlevel₂, hrefs', hright', hlast⟩ :=
      second hempty hmid houter hlevel₁
    refine ⟨level₂, refs ++ refs', .each key between hlaid hlaid', hlevel₂, ?_,
      List.forall_mem_append.2 ⟨hright, hright'⟩, hlast⟩
    rw [List.map_append, hrefs, hrefs']
  | fault cause => cases hr

end Draft

end PreparedSql
