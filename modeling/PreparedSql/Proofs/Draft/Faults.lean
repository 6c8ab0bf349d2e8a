import PreparedSql.Proofs.Draft.Scoping

/-!
# What keeps a draft from being written

A draft can be given names unless there is a fault somewhere in it or one of its columns
refers to a table that is not listed around it. Which names are handed out, and which are
reserved, has no part in it.
-/

namespace PreparedSql

/-- Whether what is referred to is listed around the reference. -/
def Site.inScope : Site TableId → Bool
  | ⟨.column t _, _, levels⟩ => levels.flatten.contains t
  | ⟨.table _, _, _⟩ => true

/-- The target whose columns stand alone, if there is one, has a visible alias. -/
def Names.ShowsTarget (ns : Names) (target : Option TableId) : Prop :=
  ∀ t, target = some t → ∃ name, (t, name) ∈ ns.aliases

theorem Names.ShowsTarget.mono {ns ns' : Names} {target : Option TableId}
    (h : ns.ShowsTarget target) (hgrows : ns.Grows ns') : ns'.ShowsTarget target := by
  intro t ht
  obtain ⟨name, hname⟩ := h t ht
  exact ⟨name, hgrows.aliases.subset hname⟩

/-- A scope shows its own target, or that of the statement around it. -/
theorem Names.ShowsTarget.entered {ns : Names} {target : Option TableId}
    (h : ns.ShowsTarget target) (kind : ScopeKind) :
    (ns.entered kind).ShowsTarget (kind.bare target) := by
  cases kind with
  | operand => exact h.mono (.entered ns .operand)
  | nested =>
    intro t ht
    cases ht
  | target label =>
    intro t ht
    cases ht
    exact ⟨_, mem_of_lookup (lookup_aliasOf _ label)⟩

namespace Draft

mutual

/-- Whether there is no fault in a draft. -/
def faultless : Draft → Bool
  | .group children | .scope _ children => faultlessAll children
  | .choice _ main alternative => faultlessAll main && faultlessAll alternative
  | .each _ body empty _ => faultlessAll body && faultlessAll empty
  | .fault _ => false
  | _ => true

def faultlessAll : List Draft → Bool
  | [] => true
  | d :: ds => d.faultless && faultlessAll ds

end

@[simp] theorem faultlessAll_nil : faultlessAll [] = true := rfl

@[simp] theorem faultlessAll_cons (d : Draft) (ds : List Draft) :
    faultlessAll (d :: ds) = (d.faultless && faultlessAll ds) := rfl

@[simp] theorem faultlessAll_append (ds es : List Draft) :
    faultlessAll (ds ++ es) = (faultlessAll ds && faultlessAll es) := by
  induction ds with
  | nil => rfl
  | cons d ds ih => rw [List.cons_append, faultlessAll_cons, ih, faultlessAll_cons, Bool.and_assoc]

theorem faultlessAll_intercalate {d : Draft} (hd : d.faultless = true)
    (parts : List (List Draft)) :
    faultlessAll (List.intercalate [d] parts) = parts.all faultlessAll := by
  induction parts with
  | nil => rfl
  | cons part parts ih =>
    cases parts with
    | nil => simp
    | cons next parts => rw [List.intercalate_cons_cons, faultlessAll_append, ih]; simp [hd]

theorem faultless_of_isPlain {d : Draft} (h : d.isPlain = true) : d.faultless = true := by
  cases d with
  | text | delimiter | hole | param | cell => rfl
  | _ => cases h

variable {q : QuoteMark}

/-- What has to do with no table can always be written. -/
theorem exists_resolves_plain {d : Draft} (h : d.isPlain = true) (target : Option TableId)
    (ns : Names) : ∃ fs ns', Resolves q target ns [d] fs ns' := by
  cases d with
  | text s => exact ⟨_, _, .text s .nil⟩
  | delimiter s kind => exact ⟨_, _, .delimiter s kind .nil⟩
  | hole hole unnamed => exact ⟨_, _, .hole hole unnamed .nil⟩
  | param p => exact ⟨_, _, .param p .nil⟩
  | cell index => exact ⟨_, _, .cell index .nil⟩
  | _ => cases h

/-- A column can be written where its table is listed. -/
theorem exists_resolves_column {target : Option TableId} {ns : Names}
    {levels : List (List NamedTable)} (hns : ns.Represents levels)
    (htarget : ns.ShowsTarget target) (t : TableId) (name : String) :
    (∃ fs ns', Resolves q target ns [.column t name] fs ns') ↔
      t ∈ (levels.map (·.map Prod.fst)).flatten := by
  have hlisted : t ∈ (levels.map (·.map Prod.fst)).flatten ↔ ∃ table, (t, table) ∈ ns.aliases := by
    rw [← List.map_flatten, List.mem_map]
    constructor
    · rintro ⟨⟨_, table⟩, hin, rfl⟩
      exact ⟨table, (hns.shown _).2 hin⟩
    · rintro ⟨table, hin⟩
      exact ⟨(t, table), (hns.shown _).1 hin, rfl⟩
  rw [hlisted]
  constructor
  · rintro ⟨fs, ns', hr⟩
    cases hr with
    | bareColumn _ _ _ => exact htarget t rfl
    | column _ _ hlookup _ => exact ⟨_, Names.mem_of_lookup hlookup⟩
  · rintro ⟨table, hin⟩
    by_cases hbare : target = some t
    · subst hbare
      exact ⟨_, _, .bareColumn t name .nil⟩
    · exact ⟨_, _, .column name hbare (hns.lookup_eq ((hns.shown _).1 hin)) .nil⟩

theorem exists_resolves_tableName (target : Option TableId) (ns : Names) (t : TableLabel) :
    ∃ fs ns', Resolves q target ns [.tableName t] fs ns' := by
  by_cases hown : t.table = some (ns.aliasOf t).1
  · exact ⟨_, _, .ownName hown .nil⟩
  · exact ⟨_, _, .tableName hown .nil⟩

/-- Naming goes through both branches of a choice, one after the other. -/
theorem exists_resolves_choice (target : Option TableId) (ns : Names) (key : Key)
    (main alternative : List Draft) :
    (∃ fs ns', Resolves q target ns [.choice key main alternative] fs ns') ↔
      ∃ fs ns', Resolves q target ns (main ++ alternative) fs ns' := by
  constructor
  · rintro ⟨_, _, hr⟩
    cases hr with
    | choice _ hmain halternative _ => exact ⟨_, _, hmain.append halternative⟩
  · rintro ⟨_, _, hr⟩
    obtain ⟨_, _, _, hmain, halternative, -⟩ := hr.append_inv
    exact ⟨_, _, .choice key hmain halternative .nil⟩

/-- So it does with the body and the empty case of a repetition. -/
theorem exists_resolves_each (target : Option TableId) (ns : Names) (key : Key)
    (body empty : List Draft) (between : String) :
    (∃ fs ns', Resolves q target ns [.each key body empty between] fs ns') ↔
      ∃ fs ns', Resolves q target ns (body ++ empty) fs ns' := by
  constructor
  · rintro ⟨_, _, hr⟩
    cases hr with
    | each _ _ hbody hempty _ => exact ⟨_, _, hbody.append hempty⟩
  · rintro ⟨_, _, hr⟩
    obtain ⟨_, _, _, hbody, hempty, -⟩ := hr.append_inv
    exact ⟨_, _, .each key between hbody hempty .nil⟩

theorem exists_resolves_group (target : Option TableId) (ns : Names) (children : List Draft) :
    (∃ fs ns', Resolves q target ns [.group children] fs ns') ↔
      ∃ fs ns', Resolves q target ns.indented children fs ns' := by
  constructor
  · rintro ⟨_, _, hr⟩
    cases hr with
    | group hinner _ => exact ⟨_, _, hinner⟩
  · rintro ⟨_, _, hinner⟩
    exact ⟨_, _, .group hinner .nil⟩

theorem exists_resolves_scope (target : Option TableId) (ns : Names) (kind : ScopeKind)
    (children : List Draft) :
    (∃ fs ns', Resolves q target ns [.scope kind children] fs ns') ↔
      ∃ fs ns', Resolves q (kind.bare target) (ns.entered kind) children fs ns' := by
  constructor
  · rintro ⟨_, _, hr⟩
    cases hr with
    | scope _ hinner _ => exact ⟨_, _, hinner⟩
  · rintro ⟨_, _, hinner⟩
    exact ⟨_, _, .scope kind hinner .nil⟩

/-- Of two drafts in a row, the second is written with the tables listed that the first
has left. -/
theorem Scoped.exists_resolves_append {target : Option TableId} {outerIds : List (List TableId)}
    {ids mid : List TableId} {ds es : List Draft} {sites sites' : List (Site TableId)}
    (h : Scoped target outerIds ids ds mid sites) {ns : Names} {outer : List (List NamedTable)}
    {level : List NamedTable} (hns : ns.Represents (level :: outer))
    (houter : outer.map (·.map Prod.fst) = outerIds) (hlevel : level.map Prod.fst = ids)
    (htarget : ns.ShowsTarget target)
    (first : (∃ fs ns', Resolves q target ns ds fs ns') ↔
      faultlessAll ds = true ∧ sites.all Site.inScope = true)
    (second : ∀ {ns : Names} {level : List NamedTable}, ns.Represents (level :: outer) →
      level.map Prod.fst = mid → ns.ShowsTarget target →
      ((∃ fs ns', Resolves q target ns es fs ns') ↔
        faultlessAll es = true ∧ sites'.all Site.inScope = true)) :
    (∃ fs ns', Resolves q target ns (ds ++ es) fs ns') ↔
      faultlessAll (ds ++ es) = true ∧ (sites ++ sites').all Site.inScope = true := by
  have hsecond {fs : List Fragment} {ns' : Names} (hfs : Resolves q target ns ds fs ns') :
      (∃ gs last, Resolves q target ns' es gs last) ↔
        faultlessAll es = true ∧ sites'.all Site.inScope = true := by
    obtain ⟨level', _, -, hlevel', -, -, hns'⟩ := h.laid hfs hns houter hlevel
    exact second hns' hlevel' (htarget.mono hfs.grows)
  rw [faultlessAll_append, List.all_append, Bool.and_eq_true, Bool.and_eq_true, and_and_and_comm,
    ← first]
  constructor
  · rintro ⟨_, last, hr⟩
    obtain ⟨fs, ns', gs, hfs, hgs, -⟩ := hr.append_inv
    exact ⟨⟨fs, ns', hfs⟩, (hsecond hfs).1 ⟨gs, last, hgs⟩⟩
  · rintro ⟨⟨fs, ns', hfs⟩, hes⟩
    obtain ⟨gs, last, hgs⟩ := (hsecond hfs).2 hes
    exact ⟨_, _, hfs.append hgs⟩

/-- A draft can be given names exactly when there is no fault in it and every column of it
refers to a table that is listed around it. -/
theorem Scoped.exists_resolves_iff {target : Option TableId} {outerIds : List (List TableId)}
    {ids ids' : List TableId} {ds : List Draft} {sites : List (Site TableId)}
    (h : Scoped target outerIds ids ds ids' sites) {ns : Names}
    {outer : List (List NamedTable)} {level : List NamedTable}
    (hns : ns.Represents (level :: outer)) (houter : outer.map (·.map Prod.fst) = outerIds)
    (hlevel : level.map Prod.fst = ids) (htarget : ns.ShowsTarget target) :
    (∃ fs ns', Resolves q target ns ds fs ns') ↔
      faultlessAll ds = true ∧ sites.all Site.inScope = true := by
  induction h generalizing ns outer level with
  | nil => exact ⟨fun _ => ⟨rfl, rfl⟩, fun _ => ⟨_, _, .nil⟩⟩
  | append hds _ first second =>
    exact hds.exists_resolves_append hns houter hlevel htarget
      (first hns houter hlevel htarget) fun hns hlevel => second hns houter hlevel
  | @plain target _ _ d hplain =>
    refine ⟨fun _ => ⟨?_, rfl⟩, fun _ => exists_resolves_plain hplain target ns⟩
    rw [faultlessAll_cons, faultless_of_isPlain hplain]
    rfl
  | column t name =>
    subst houter hlevel
    rw [exists_resolves_column hns htarget]
    simp [faultless, Site.inScope]
  | introduce t => exact ⟨fun _ => ⟨rfl, rfl⟩, fun _ => ⟨_, _, .introduce t .nil⟩⟩
  | @tableName target _ _ t _ =>
    exact ⟨fun _ => ⟨rfl, rfl⟩, fun _ => exists_resolves_tableName target ns t⟩
  | group _ inner =>
    have hindented : ns.indented.Represents (level :: outer) :=
      hns.congr rfl (List.Subset.refl _)
    rw [exists_resolves_group, inner hindented houter hlevel htarget]
    simp [faultless]
  | scope kind _ inner =>
    obtain ⟨start, hstart, hentered⟩ := hns.entered kind
    rw [exists_resolves_scope,
      inner hentered (by rw [List.map_cons, hlevel, houter]) hstart (htarget.entered kind)]
    simp [faultless]
  | choice key hmain _ first second =>
    rw [exists_resolves_choice, hmain.exists_resolves_append hns houter hlevel htarget
      (first hns houter hlevel htarget) fun hns hlevel => second hns houter hlevel]
    simp [faultless]
  | each key between hbody _ first second =>
    rw [exists_resolves_each, hbody.exists_resolves_append hns houter hlevel htarget
      (first hns houter hlevel htarget) fun hns hlevel => second hns houter hlevel]
    simp [faultless]
  | fault cause =>
    refine ⟨?_, fun hfaultless => ?_⟩
    · rintro ⟨_, _, hr⟩
      cases hr
    · cases hfaultless.1

end Draft

end PreparedSql
