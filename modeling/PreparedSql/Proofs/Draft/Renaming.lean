import PreparedSql.Proofs.Draft.Resolution
import PreparedSql.Proofs.Statement.Relabeling

/-!
# Names of renamed objects

Which alias a table gets and which number a parameter gets depend on the order in which they are
met and on names, not on identities. So giving names commutes with a renaming, and the operators
and clauses of statements put renamed parts together to a renamed whole.
-/

namespace PreparedSql

variable (ρ : Renaming)

def ScopeKind.rename : ScopeKind → ScopeKind
  | .operand => .operand
  | .nested => .nested
  | .target t => .target (t.rename ρ)

/-! ## Names -/

/-- The same names, given to the renamed objects. -/
def Names.rename (ns : Names) : Names :=
  { ns with
    aliases := ns.aliases.map (Prod.map ρ.table id)
    params := ns.params.map (Prod.map ρ.param id) }

namespace Names

variable (ns : Names)

/-- What is found under a key is found under the renamed key. -/
theorem lookup_map {α β γ : Type} [DecidableEq α] [DecidableEq β] {f : α → β}
    (hf : Function.Injective f) (entries : List (α × γ)) (key : α) :
    (entries.map (Prod.map f id)).lookup (f key) = entries.lookup key := by
  induction entries with
  | nil => rfl
  | cons entry entries ih =>
    obtain ⟨first, stored⟩ := entry
    simp only [List.map_cons, Prod.map, List.lookup_cons, hf.beq_eq, ih]
    rfl

theorem lookup_rename (t : TableId) : (ns.rename ρ).lookup (ρ.table t) = ns.lookup t :=
  lookup_map ρ.table.injective ns.aliases t

theorem take_rename (name : String) : (ns.rename ρ).take name = (ns.take name).rename ρ := by
  have hsame : (ns.rename ρ).isTaken name = ns.isTaken name := rfl
  unfold take
  rw [hsame]
  split <;> rfl

theorem choose_rename (t : TableLabel) :
    (ns.rename ρ).choose (t.rename ρ) = ((ns.choose t).1, (ns.choose t).2.rename ρ) := by
  have hsame : (ns.rename ρ).candidates (t.rename ρ) = ns.candidates t := rfl
  have hdraw : (ns.rename ρ).draw = (ns.draw.1, ns.draw.2.rename ρ) := rfl
  have hfind : (ns.candidates t).find? (!(ns.rename ρ).isTaken ·) =
      (ns.candidates t).find? (!ns.isTaken ·) := rfl
  simp only [choose, hsame, hdraw, hfind]
  cases (ns.candidates t).find? (!ns.isTaken ·) <;> rfl

theorem aliasOf_rename (t : TableLabel) :
    (ns.rename ρ).aliasOf (t.rename ρ) = ((ns.aliasOf t).1, (ns.aliasOf t).2.rename ρ) := by
  have hlookup : (ns.rename ρ).lookup (t.rename ρ).id = ns.lookup t.id := lookup_rename ρ ns t.id
  simp only [aliasOf, hlookup]
  cases ns.lookup t.id with
  | some name => rfl
  | none =>
    simp only [choose_rename, take_rename]
    simp [publish, rename, TableLabel.rename]

theorem param_rename (p : Param) :
    (ns.rename ρ).param (ρ.param p) = ((ns.param p).1, (ns.param p).2.rename ρ) := by
  have hlookup : (ns.rename ρ).params.lookup (ρ.param p) = ns.params.lookup p :=
    lookup_map ρ.param.injective ns.params p
  simp only [param, hlookup]
  cases ns.params.lookup p with
  | some name => rfl
  | none => simp [rename]

theorem closeScope_rename (m : Mark) :
    (ns.rename ρ).closeScope m = (ns.closeScope m).rename ρ := by
  simp [closeScope, rename, List.map_take]

theorem mark_rename : (ns.rename ρ).mark = ns.mark := by
  simp [mark, rename]

theorem entered_rename (kind : ScopeKind) :
    (ns.rename ρ).entered (kind.rename ρ) = (ns.entered kind).rename ρ := by
  cases kind with
  | operand | nested => rfl
  | target t => exact congrArg Prod.snd (aliasOf_rename ρ (ns.openScope.setAliasing false) t)

end Names

namespace Draft

mutual

def rename : Draft → Draft
  | .text s => .text s
  | .delimiter s kind => .delimiter s kind
  | .group children => .group (renameAll children)
  | .hole h unnamed => .hole (h.rename ρ) ((h.isParam_rename ρ).trans unnamed)
  | .param p => .param (ρ.param p)
  | .column table name => .column (ρ.table table) name
  | .introduce t => .introduce (t.rename ρ)
  | .tableName t => .tableName (t.rename ρ)
  | .scope kind children => .scope (kind.rename ρ) (renameAll children)
  | .choice key main alternative => .choice key (renameAll main) (renameAll alternative)
  | .each key body empty between => .each key (renameAll body) (renameAll empty) between
  | .cell index => .cell index
  | .fault cause => .fault cause

def renameAll : List Draft → List Draft
  | [] => []
  | d :: ds => rename d :: renameAll ds

end

/-! ## Giving names -/

/-- What giving names to renamed drafts leads to. -/
def renamed : Except Cause (List Fragment × Names) → Except Cause (List Fragment × Names) :=
  Except.map (Prod.map (Fragment.renameAll ρ) (Names.rename ρ))

variable {q : QuoteMark} {bare : Option TableId} {ns : Names}

/-- Going on from renamed drafts. -/
theorem renamed_bind {x y : Except Cause (List Fragment × Names)}
    {next next' : List Fragment × Names → Except Cause (List Fragment × Names)}
    (hx : y = renamed ρ x)
    (hnext : ∀ fs ns, next' (Fragment.renameAll ρ fs, ns.rename ρ) = renamed ρ (next (fs, ns))) :
    (y >>= next') = renamed ρ (x >>= next) := by
  subst hx
  cases x with
  | error cause => rfl
  | ok result => exact hnext result.1 result.2

theorem run_cons_renameAll {d : Draft} {ds : List Draft}
    (hd : (resolve q (bare.map ρ.table) (d.rename ρ)).run (ns.rename ρ) =
      renamed ρ ((resolve q bare d).run ns))
    (hds : ∀ ns, (resolveAll q (bare.map ρ.table) (renameAll ρ ds)).run (ns.rename ρ) =
      renamed ρ ((resolveAll q bare ds).run ns)) :
    (resolveAll q (bare.map ρ.table) (renameAll ρ (d :: ds))).run (ns.rename ρ) =
      renamed ρ ((resolveAll q bare (d :: ds)).run ns) := by
  rw [renameAll, run_resolveAll_cons, run_resolveAll_cons]
  refine renamed_bind ρ hd fun first mid => renamed_bind ρ (hds mid) fun rest last => ?_
  rw [← Fragment.renameAll_append]
  rfl

/-- Giving names commutes with renaming. -/
theorem run_renameAll (ds : List Draft) (bare : Option TableId) (ns : Names) :
    (resolveAll q (bare.map ρ.table) (renameAll ρ ds)).run (ns.rename ρ) =
      renamed ρ ((resolveAll q bare ds).run ns) := by
  induction ds using listInduction generalizing bare ns with
  | nil => rfl
  | text s ds ih | delimiter s kind ds ih | hole h unnamed ds ih | cell index ds ih
  | fault cause ds ih =>
    exact run_cons_renameAll ρ rfl (ih bare)
  | group children ds inner ih =>
    refine run_cons_renameAll ρ ?_ (ih bare)
    rw [rename, run_group, run_group]
    exact renamed_bind ρ (inner bare ns.indented) fun fs mid => rfl
  | param p ds ih =>
    refine run_cons_renameAll ρ ?_ (ih bare)
    have hname := Names.param_rename ρ ns p
    show Except.ok ([Fragment.hole (.param (ρ.param p) ((ns.rename ρ).param (ρ.param p)).1)],
      ((ns.rename ρ).param (ρ.param p)).2) = _
    rw [hname]
    rfl
  | column t name ds ih =>
    refine run_cons_renameAll ρ ?_ (ih bare)
    have hbare : bare.map ρ.table = some (ρ.table t) ↔ bare = some t := by
      cases bare <;> simp
    simp only [rename, run_column, hbare, Names.lookup_rename]
    split
    · rfl
    · cases ns.lookup t <;> rfl
  | introduce t ds ih =>
    refine run_cons_renameAll ρ ?_ (ih bare)
    show Except.ok ([], ((ns.rename ρ).aliasOf (t.rename ρ)).2) = _
    rw [Names.aliasOf_rename]
    rfl
  | tableName t ds ih =>
    refine run_cons_renameAll ρ ?_ (ih bare)
    have htable : (t.rename ρ).table = t.table := rfl
    simp only [rename, run_tableName, Names.aliasOf_rename, htable]
    split <;> rfl
  | scope kind children ds inner ih =>
    refine run_cons_renameAll ρ ?_ (ih bare)
    have hbare : (kind.rename ρ).bare (bare.map ρ.table) = (kind.bare bare).map ρ.table := by
      cases kind <;> rfl
    have hinner := inner (kind.bare bare) (ns.entered kind)
    rw [← hbare, ← Names.entered_rename] at hinner
    rw [rename, run_scope, run_scope, Names.mark_rename]
    exact renamed_bind ρ hinner fun fs mid => by rw [Names.closeScope_rename]; rfl
  | choice key main alternative ds first second ih =>
    refine run_cons_renameAll ρ ?_ (ih bare)
    rw [rename, run_choice, run_choice]
    exact renamed_bind ρ (first bare ns) fun main mid =>
      renamed_bind ρ (second bare mid) fun alternative last => rfl
  | each key body empty between ds first second ih =>
    refine run_cons_renameAll ρ ?_ (ih bare)
    rw [rename, run_each, run_each]
    exact renamed_bind ρ (first bare ns) fun body mid =>
      renamed_bind ρ (second bare mid) fun empty last => rfl

/-! ## Operators and clauses -/

@[simp] theorem renameAll_nil : renameAll ρ [] = [] := rfl

@[simp] theorem renameAll_cons (d : Draft) (ds : List Draft) :
    renameAll ρ (d :: ds) = d.rename ρ :: renameAll ρ ds := rfl

@[simp] theorem renameAll_append (ds es : List Draft) :
    renameAll ρ (ds ++ es) = renameAll ρ ds ++ renameAll ρ es := by
  induction ds with
  | nil => rfl
  | cons d ds ih => simp [ih]

@[simp] theorem rename_text (s : String) : (text s).rename ρ = .text s := rfl

@[simp] theorem rename_ident (s : Spelling) (name : String) :
    (ident s name).rename ρ = ident s name := rfl

variable {s : Spelling} {ds : List Draft} {parts : List (List Draft)}

theorem renameAll_intercalate (between : Draft) :
    renameAll ρ (List.intercalate [between] parts) =
      List.intercalate [between.rename ρ] (parts.map (renameAll ρ)) := by
  induction parts with
  | nil => rfl
  | cons part parts ih =>
    cases parts with
    | nil => simp
    | cons next parts =>
      rw [List.intercalate_cons_cons, renameAll_append, renameAll_append, ih]
      exact (List.intercalate_cons_cons ..).symm

@[simp] theorem renameAll_commas (kind : DelimiterKind) :
    renameAll ρ (commas kind parts) = commas kind (parts.map (renameAll ρ)) :=
  renameAll_intercalate ρ _

@[simp] theorem renameAll_words (word : String) :
    renameAll ρ (words word parts) = words word (parts.map (renameAll ρ)) :=
  renameAll_intercalate ρ _

@[simp] theorem renameAll_clause : renameAll ρ (clause ds) = clause (renameAll ρ ds) := rfl

@[simp] theorem renameAll_parens : renameAll ρ (parens ds) = parens (renameAll ρ ds) := by
  simp [parens]

theorem renameAll_ite (b : Bool) (ds es : List Draft) :
    renameAll ρ (if b then ds else es) = if b then renameAll ρ ds else renameAll ρ es := by
  cases b <;> rfl

@[simp] theorem renameAll_parensIf (b : Bool) :
    renameAll ρ (parensIf b ds) = parensIf b (renameAll ρ ds) := by
  simp only [parensIf, renameAll_ite, renameAll_parens]

@[simp] theorem renameAll_operand (e : Expr) :
    renameAll ρ (operand e ds) = operand e (renameAll ρ ds) :=
  renameAll_parensIf ρ _

@[simp] theorem renameAll_enclosed (opening : String) :
    renameAll ρ (enclosed opening ds) = enclosed opening (renameAll ρ ds) := rfl

@[simp] theorem rename_literal (s : Spelling) (v : Value) :
    (literal s v).rename ρ = literal s v := by
  unfold literal
  split <;> rfl

@[simp] theorem renameAll_conjunction (es : List Expr) :
    renameAll ρ (conjunction es parts) = conjunction es (parts.map (renameAll ρ)) := by
  have hparts : (List.zipWith parensIf (es.map Expr.splitsConjunction) parts).map (renameAll ρ) =
      List.zipWith parensIf (es.map Expr.splitsConjunction) (parts.map (renameAll ρ)) := by
    simp [List.map_zipWith, List.zipWith_map_right]
  simp only [conjunction, renameAll_ite, renameAll_words, hparts]
  rfl

@[simp] theorem renameAll_disjunction :
    renameAll ρ (disjunction parts) = disjunction (parts.map (renameAll ρ)) := by
  simp only [disjunction, renameAll_ite, renameAll_words, List.isEmpty_map]
  rfl

@[simp] theorem renameAll_comparison (op : BinaryOp) (lhs rhs : Expr) (l r : List Draft) :
    renameAll ρ (comparison op lhs rhs l r) =
      comparison op lhs rhs (renameAll ρ l) (renameAll ρ r) := by
  unfold comparison
  split <;> simp

@[simp] theorem renameAll_membership (e : Expr) :
    renameAll ρ (membership e ds parts) =
      membership e (renameAll ρ ds) (parts.map (renameAll ρ)) := by
  simp only [membership, renameAll_ite, List.isEmpty_map]
  simp

@[simp] theorem renameAll_count (s : Spelling) (distinct : Bool)
    (argument filter : Option (List Draft)) :
    renameAll ρ (count s distinct argument filter) =
      count s distinct (argument.map (renameAll ρ)) (filter.map (renameAll ρ)) := by
  have hgetD (word : String) : (argument.map (renameAll ρ)).getD [.text word] =
      renameAll ρ (argument.getD [.text word]) := by
    cases argument <;> rfl
  simp only [count, Option.isNone_map, renameAll_ite, hgetD]
  cases filter with
  | none => simp [renameAll_ite, malformed, rename]
  | some filter =>
    cases s.features.countFilter <;> simp [renameAll_ite, malformed, rename]

@[simp] theorem renameAll_noRows (s : Spelling) : renameAll ρ (noRows s) = noRows s := by
  simp only [noRows, renameAll_append, renameAll_ite]
  rfl

@[simp] theorem renameAll_collectionTest (s : Spelling) (style : CollectionTest) (key : Key)
    (es : List Expr) :
    renameAll ρ (collectionTest s style key es parts) =
      collectionTest s style key es (parts.map (renameAll ρ)) := by
  match style, es with
  | .list, [] | .list, _ :: _ :: _ | .disjunction, [] => rfl
  | .list, [e] =>
    match parts with
    | [] | _ :: _ :: _ => rfl
    | [part] => simp [collectionTest, rename]
  | .disjunction, e :: es =>
    have hequalities (operands : List (List Draft)) :
        (operands.mapIdx fun index d => d ++ [.text "=", .cell index]).map (renameAll ρ) =
          (operands.map (renameAll ρ)).mapIdx fun index d => d ++ [.text "=", .cell index] := by
      exact List.ext_getElem (by simp) (by simp [rename])
    have hoperands : (List.zipWith operand (e :: es) parts).map (renameAll ρ) =
        List.zipWith operand (e :: es) (parts.map (renameAll ρ)) := by
      simp [List.map_zipWith, List.zipWith_map_right]
    simp [collectionTest, rename, hequalities, hoperands]

theorem qualifiedName_rename (s : Spelling) (t : Table) :
    qualifiedName s (t.rename ρ) = renameAll ρ (qualifiedName s t) := by
  have hcatalogs (catalogs : List Catalog) :
      renameAll ρ (catalogs.map fun c => .hole (.catalog c) rfl) =
        (catalogs.map ρ.catalog).map fun c => .hole (.catalog c) rfl := by
    induction catalogs with
    | nil => rfl
    | cons c catalogs ih => exact congrArg _ ih
  obtain ⟨name, schema⟩ := t
  cases schema with
  | none => rfl
  | some schema =>
    simp only [qualifiedName, Table.rename, Option.map_some, ρ.schema_catalog, renameAll_append,
      renameAll_ite, hcatalogs, Option.toList_map]
    rfl

theorem hintsOn_rename (s : Spelling) (derived : Bool) (hints : List IndexHint) (t : TableId) :
    hintsOn s derived (hints.map (·.rename ρ)) (ρ.table t) =
      renameAll ρ (hintsOn s derived hints t) := by
  have hhint (h : IndexHint) : hint s derived (h.rename ρ) = renameAll ρ (hint s derived h) := by
    obtain ⟨table, index, when?⟩ := h
    simp only [hint, IndexHint.rename, renameAll_ite]
    cases derived <;> cases when? <;> cases s.features.indexHints <;> rfl
  unfold hintsOn
  induction hints with
  | nil => rfl
  | cons h hints ih =>
    have htable : ((h.rename ρ).table == ρ.table t) = (h.table == t) :=
      ρ.table.injective.beq_eq
    simp only [List.map_cons, List.filter_cons, htable]
    cases h.table == t with
    | false => exact ih
    | true =>
      simp only [if_true, List.flatMap_cons, renameAll_append, hhint, ih]

@[simp] theorem renameAll_optionalClause (keyword : String) (part : Option (List Draft)) :
    renameAll ρ (optionalClause keyword part) =
      optionalClause keyword (part.map (renameAll ρ)) := by
  cases part <;> rfl

@[simp] theorem renameAll_listClause (keyword : String) :
    renameAll ρ (listClause keyword parts) = listClause keyword (parts.map (renameAll ρ)) := by
  simp only [listClause, renameAll_ite, List.isEmpty_map]
  simp

@[simp] theorem renameAll_projected (s : Spelling) (label : Option String) :
    renameAll ρ (projected s ds label) = projected s (renameAll ρ ds) label := by
  cases label <;> simp [projected]

@[simp] theorem renameAll_lock (s : Spelling) (l : Option Lock) :
    renameAll ρ (lock s l) = lock s l := by
  cases l with
  | none => rfl
  | some l =>
    simp only [lock, renameAll_ite]
    rfl

@[simp] theorem renameAll_returning (s : Spelling) :
    renameAll ρ (returning s parts) = returning s (parts.map (renameAll ρ)) := by
  simp only [returning, renameAll_ite, List.isEmpty_map]
  simp
  rfl

end Draft

end PreparedSql
