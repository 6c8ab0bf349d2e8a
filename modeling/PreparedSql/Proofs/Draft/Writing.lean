import Mathlib.Data.List.Forall2
import PreparedSql.Proofs.Draft.Resolution
import PreparedSql.Proofs.Template.Steps

/-!
# What drafts are written as

A draft becomes the steps of an execution in two stages: it is given names, and
the arguments are filled in. `Draft.Written` joins the stages and forgets where
the draft stood, so a statement about it holds wherever the draft may stand. The
lemmas say what each kind of draft is written as; whatever is known about written
drafts is put together from them.
-/

namespace PreparedSql.Draft

namespace Resolves

variable {q : QuoteMark} {bare : Option TableId} {ns ns' : Names} {d : Draft} {ds es : List Draft}
  {fs : List Fragment}

/-- The first part is written by itself, and the rest with the names it leaves. -/
theorem cons_inv (h : Resolves q bare ns (d :: ds) fs ns') :
    ∃ first mid rest, Resolves q bare ns [d] first mid ∧ Resolves q bare mid ds rest ns' ∧
      fs = first ++ rest := by
  cases h with
  | text s hrest => exact ⟨_, _, _, .text s .nil, hrest, rfl⟩
  | delimiter s kind hrest => exact ⟨_, _, _, .delimiter s kind .nil, hrest, rfl⟩
  | group hinner hrest => exact ⟨_, _, _, .group hinner .nil, hrest, rfl⟩
  | hole h unnamed hrest => exact ⟨_, _, _, .hole h unnamed .nil, hrest, rfl⟩
  | param p hrest => exact ⟨_, _, _, .param p .nil, hrest, rfl⟩
  | bareColumn t name hrest => exact ⟨_, _, _, .bareColumn t name .nil, hrest, rfl⟩
  | column name hbare hlookup hrest =>
    exact ⟨_, _, _, .column name hbare hlookup .nil, hrest, rfl⟩
  | introduce t hrest => exact ⟨_, _, _, .introduce t .nil, hrest, rfl⟩
  | ownName hown hrest => exact ⟨_, _, _, .ownName hown .nil, hrest, rfl⟩
  | tableName hown hrest => exact ⟨_, _, _, .tableName hown .nil, hrest, rfl⟩
  | scope kind hinner hrest =>
    exact ⟨_, _, _, .scope kind hinner .nil, hrest, by rw [List.append_nil]⟩
  | choice key hmain halternative hrest =>
    exact ⟨_, _, _, .choice key hmain halternative .nil, hrest, rfl⟩
  | each key between hbody hempty hrest =>
    exact ⟨_, _, _, .each key between hbody hempty .nil, hrest, rfl⟩
  | cell index hrest => exact ⟨_, _, _, .cell index .nil, hrest, rfl⟩

/-- Two lists are written one after the other. -/
theorem append {mid : Names} {gs : List Fragment} (h : Resolves q bare ns ds fs mid)
    (h' : Resolves q bare mid es gs ns') : Resolves q bare ns (ds ++ es) (fs ++ gs) ns' := by
  induction h with
  | nil => exact h'
  | text s _ ih => exact .text s (ih h')
  | delimiter s kind _ ih => exact .delimiter s kind (ih h')
  | group hinner _ _ ih => exact .group hinner (ih h')
  | hole h unnamed _ ih => exact .hole h unnamed (ih h')
  | param p _ ih => exact .param p (ih h')
  | bareColumn t name _ ih => exact .bareColumn t name (ih h')
  | column name hbare hlookup _ ih => exact .column name hbare hlookup (ih h')
  | introduce t _ ih => exact .introduce t (ih h')
  | ownName hown _ ih => exact .ownName hown (ih h')
  | tableName hown _ ih => exact .tableName hown (ih h')
  | scope kind hinner _ _ ih =>
    rw [List.append_assoc]
    exact .scope kind hinner (ih h')
  | choice key hmain halternative _ _ _ ih => exact .choice key hmain halternative (ih h')
  | each key between hbody hempty _ _ _ ih => exact .each key between hbody hempty (ih h')
  | cell index _ ih => exact .cell index (ih h')

theorem append_inv (h : Resolves q bare ns (ds ++ es) fs ns') :
    ∃ first mid rest, Resolves q bare ns ds first mid ∧ Resolves q bare mid es rest ns' ∧
      fs = first ++ rest := by
  induction ds generalizing ns fs with
  | nil => exact ⟨[], ns, fs, .nil, h, rfl⟩
  | cons d ds ih =>
    obtain ⟨first, mid, rest, hfirst, hrest, rfl⟩ := cons_inv h
    obtain ⟨middle, mid', last, hmiddle, hlast, rfl⟩ := ih hrest
    exact ⟨first ++ middle, mid', last, hfirst.append hmiddle, hlast, by rw [List.append_assoc]⟩

/-! What a part that stands alone is written as, and which names it leaves. -/

theorem text_inv {s : String} (h : Resolves q bare ns [.text s] fs ns') :
    fs = [.text s] ∧ ns' = ns := by
  cases h with
  | text _ hrest =>
    cases hrest
    exact ⟨rfl, rfl⟩

theorem delimiter_inv {s : String} {kind : DelimiterKind}
    (h : Resolves q bare ns [.delimiter s kind] fs ns') :
    fs = [.delimiter s kind] ∧ ns' = ns := by
  cases h with
  | delimiter _ _ hrest =>
    cases hrest
    exact ⟨rfl, rfl⟩

theorem hole_inv {h : Hole} {unnamed : h.isParam = false}
    (hr : Resolves q bare ns [.hole h unnamed] fs ns') :
    fs = [.hole h] ∧ ns' = ns := by
  cases hr with
  | hole _ _ hrest =>
    cases hrest
    exact ⟨rfl, rfl⟩

theorem param_inv {p : Param} (h : Resolves q bare ns [.param p] fs ns') :
    fs = [.hole (.param p (ns.param p).1)] ∧ ns' = (ns.param p).2 := by
  cases h with
  | param _ hrest =>
    cases hrest
    exact ⟨rfl, rfl⟩

theorem cell_inv {index : Nat} (h : Resolves q bare ns [.cell index] fs ns') :
    fs = [.cell index] ∧ ns' = ns := by
  cases h with
  | cell _ hrest =>
    cases hrest
    exact ⟨rfl, rfl⟩

theorem cell_mem {index : Nat} (h : Resolves q bare ns ds fs ns') (hcell : .cell index ∈ ds) :
    .cell index ∈ fs := by
  obtain ⟨before, after, rfl⟩ := List.append_of_mem hcell
  obtain ⟨first, mid, rest, -, hrest, rfl⟩ := h.append_inv
  obtain ⟨cell, mid', last, hcell, -, rfl⟩ := hrest.cons_inv
  obtain ⟨rfl, -⟩ := hcell.cell_inv
  simp

/-- A column of the target stands alone, any other behind the name of its table. -/
theorem column_inv {t : TableId} {name : String} (h : Resolves q bare ns [.column t name] fs ns') :
    (bare = some t ∧ fs = [.text (q.quote name)] ∨ bare ≠ some t ∧ ∃ table,
      ns.lookup t = some table ∧ fs = [.text (q.column table name)]) ∧ ns' = ns := by
  cases h with
  | bareColumn _ _ hrest =>
    cases hrest
    exact ⟨.inl ⟨rfl, rfl⟩, rfl⟩
  | column _ hbare hlookup hrest =>
    cases hrest
    exact ⟨.inr ⟨hbare, _, hlookup, rfl⟩, rfl⟩

theorem introduce_inv {t : TableLabel} (h : Resolves q bare ns [.introduce t] fs ns') :
    fs = [] ∧ ns' = (ns.aliasOf t).2 := by
  cases h with
  | introduce _ hrest =>
    cases hrest
    exact ⟨rfl, rfl⟩

theorem tableName_inv {t : TableLabel} (h : Resolves q bare ns [.tableName t] fs ns') :
    (t.table = some (ns.aliasOf t).1 ∧ fs = [] ∨
      t.table ≠ some (ns.aliasOf t).1 ∧ fs = [.text (q.quote (ns.aliasOf t).1)]) ∧
      ns' = (ns.aliasOf t).2 := by
  cases h with
  | ownName hown hrest =>
    cases hrest
    exact ⟨.inl ⟨hown, rfl⟩, rfl⟩
  | tableName hown hrest =>
    cases hrest
    exact ⟨.inr ⟨hown, rfl⟩, rfl⟩

theorem group_inv (h : Resolves q bare ns [.group ds] fs ns') :
    ∃ inner mid, Resolves q bare ns.indented ds inner mid ∧ fs = [.group true inner] ∧
      ns' = mid.outdented := by
  cases h with
  | group hinner hrest =>
    cases hrest
    exact ⟨_, _, hinner, rfl, rfl⟩

theorem scope_inv {kind : ScopeKind} (h : Resolves q bare ns [.scope kind ds] fs ns') :
    ∃ mid, Resolves q (kind.bare bare) (ns.entered kind) ds fs mid ∧
      ns' = mid.closeScope ns.mark := by
  cases h with
  | scope _ hinner hrest =>
    cases hrest
    rw [List.append_nil]
    exact ⟨_, hinner, rfl⟩

theorem choice_inv {key : Key} (h : Resolves q bare ns [.choice key ds es] fs ns') :
    ∃ main mid alternative, Resolves q bare ns ds main mid ∧
      Resolves q bare mid es alternative ns' ∧ fs = [.choice key main alternative] := by
  cases h with
  | choice _ hmain halternative hrest =>
    cases hrest
    exact ⟨_, _, _, hmain, halternative, rfl⟩

theorem each_inv {key : Key} {between : String}
    (h : Resolves q bare ns [.each key ds es between] fs ns') :
    ∃ body mid empty, Resolves q bare ns ds body mid ∧ Resolves q bare mid es empty ns' ∧
      fs = [.each key body empty between] := by
  cases h with
  | each _ _ hbody hempty hrest =>
    cases hrest
    exact ⟨_, _, _, hbody, hempty, rfl⟩

end Resolves

/-- The steps are those of a draft that was given names somewhere, in an execution
with the arguments `a` that is at the given row. -/
def Written (q : QuoteMark) (a : Arguments) (row : Option RowAt) (ds : List Draft)
    (steps : List Step) : Prop :=
  ∃ bare ns fs ns', Resolves q bare ns ds fs ns' ∧ Fragment.walkAll a q row fs = steps

namespace Written

variable {q : QuoteMark} {a : Arguments} {row : Option RowAt} {d : Draft} {ds es : List Draft}
  {steps : List Step}

theorem nil (h : Written q a row [] steps) : steps = [] := by
  obtain ⟨_, _, _, _, ⟨⟩, rfl⟩ := h
  rfl

theorem append (h : Written q a row (ds ++ es) steps) :
    ∃ first rest, Written q a row ds first ∧ Written q a row es rest ∧ steps = first ++ rest := by
  obtain ⟨bare, ns, fs, ns', hfs, rfl⟩ := h
  obtain ⟨first, mid, rest, hfirst, hrest, rfl⟩ := hfs.append_inv
  exact ⟨_, _, ⟨bare, ns, first, mid, hfirst, rfl⟩, ⟨bare, mid, rest, ns', hrest, rfl⟩,
    Fragment.walkAll_append ..⟩

theorem cons (h : Written q a row (d :: ds) steps) :
    ∃ first rest, Written q a row [d] first ∧ Written q a row ds rest ∧ steps = first ++ rest :=
  append h

theorem text {s : String} (h : Written q a row [.text s] steps) : steps = [.token s] := by
  obtain ⟨_, _, _, _, hfs, rfl⟩ := h
  obtain ⟨rfl, -⟩ := hfs.text_inv
  rfl

theorem delimiter {s : String} {kind : DelimiterKind}
    (h : Written q a row [.delimiter s kind] steps) : steps = [.delimiter s kind] := by
  obtain ⟨_, _, _, _, hfs, rfl⟩ := h
  obtain ⟨rfl, -⟩ := hfs.delimiter_inv
  rfl

theorem group (h : Written q a row [.group ds] steps) :
    ∃ inner, Written q a row ds inner ∧ steps = .enter :: inner ++ [.exit] := by
  obtain ⟨_, _, _, _, hfs, rfl⟩ := h
  obtain ⟨inner, mid, hinner, rfl, -⟩ := hfs.group_inv
  exact ⟨_, ⟨_, _, _, _, hinner, rfl⟩, by simp [Fragment.walkAll, Fragment.walk]⟩

theorem hole {h : Hole} {unnamed : h.isParam = false}
    (hw : Written q a row [.hole h unnamed] steps) :
    steps = [.gap, h.step a q, .settle h.qualifies] := by
  obtain ⟨_, _, _, _, hfs, rfl⟩ := hw
  obtain ⟨rfl, -⟩ := hfs.hole_inv
  rfl

theorem param {p : Param} (h : Written q a row [.param p] steps) :
    ∃ name, steps = [.gap, (Hole.param p name).step a q, .settle false] := by
  obtain ⟨_, _, _, _, hfs, rfl⟩ := h
  obtain ⟨rfl, -⟩ := hfs.param_inv
  exact ⟨_, rfl⟩

/-- A column is written by its name, alone or behind a table's. -/
theorem column {t : TableId} {name : String} (h : Written q a row [.column t name] steps) :
    ∃ s, (s = q.quote name ∨ ∃ table, s = q.column table name) ∧ steps = [.token s] := by
  obtain ⟨_, _, _, _, hfs, rfl⟩ := h
  obtain ⟨⟨-, rfl⟩ | ⟨-, table, -, rfl⟩, -⟩ := hfs.column_inv
  · exact ⟨_, .inl rfl, rfl⟩
  · exact ⟨_, .inr ⟨table, rfl⟩, rfl⟩

theorem introduce {t : TableLabel} (h : Written q a row [.introduce t] steps) : steps = [] := by
  obtain ⟨_, _, _, _, hfs, rfl⟩ := h
  obtain ⟨rfl, -⟩ := hfs.introduce_inv
  rfl

theorem tableName {t : TableLabel} (h : Written q a row [.tableName t] steps) :
    steps = [] ∨ ∃ name, steps = [.token (q.quote name)] := by
  obtain ⟨_, _, _, _, hfs, rfl⟩ := h
  obtain ⟨⟨-, rfl⟩ | ⟨-, rfl⟩, -⟩ := hfs.tableName_inv
  · exact .inl rfl
  · exact .inr ⟨_, rfl⟩

/-- A scope leaves no trace of its own. -/
theorem scope {kind : ScopeKind} (h : Written q a row [.scope kind ds] steps) :
    Written q a row ds steps := by
  obtain ⟨_, _, _, _, hfs, rfl⟩ := h
  obtain ⟨mid, hinner, -⟩ := hfs.scope_inv
  exact ⟨_, _, _, _, hinner, rfl⟩

theorem choice {key : Key} {main alternative : List Draft}
    (h : Written q a row [.choice key main alternative] steps) :
    ∃ inner, Written q a row (if a.alternative key then alternative else main) inner ∧
      steps = inner ++ [.settle false] := by
  obtain ⟨_, _, _, _, hfs, rfl⟩ := h
  obtain ⟨main, mid, alternative, hmain, halternative, rfl⟩ := hfs.choice_inv
  refine ⟨_, ?_, List.append_nil _⟩
  split
  · exact ⟨_, _, _, _, halternative, rfl⟩
  · exact ⟨_, _, _, _, hmain, rfl⟩

/-- Without rows, a repetition is written as its empty case. -/
theorem each_nil {key : Key} {body empty : List Draft} {between : String}
    (h : Written q a row [.each key body empty between] steps) (hrows : a.rows key = []) :
    ∃ inner, Written q a row empty inner ∧ steps = .gap :: .fresh :: inner ++ [.settle false] := by
  obtain ⟨_, _, _, _, hfs, rfl⟩ := h
  obtain ⟨body, mid, empty, -, hempty, rfl⟩ := hfs.each_inv
  refine ⟨_, ⟨_, _, _, _, hempty, rfl⟩, ?_⟩
  simp [Fragment.walkAll, Fragment.walk_each, Fragment.repeated, hrows]

/-- With rows, it is written as its body for each of them, with the text between. -/
theorem each_rows {key : Key} {body empty : List Draft} {between : String}
    (h : Written q a row [.each key body empty between] steps) (hrows : a.rows key ≠ []) :
    ∃ inner : Nat → List Cell → List Step,
      (∀ index cells, Written q a (some ⟨key, index, cells⟩) body (inner index cells)) ∧
      steps = .gap :: List.intercalate [.write between]
        ((a.rows key).mapIdx fun index cells => .fresh :: inner index cells) ++
          [.settle false] := by
  obtain ⟨_, _, _, _, hfs, rfl⟩ := h
  obtain ⟨body, mid, empty, hbody, -, rfl⟩ := hfs.each_inv
  refine ⟨fun index cells => Fragment.walkAll a q (some ⟨key, index, cells⟩) body, ?_, ?_⟩
  · intro index cells
    exact ⟨_, _, _, _, hbody, rfl⟩
  · cases hkey : a.rows key with
    | nil => exact absurd hkey hrows
    | cons first rest => simp [Fragment.walkAll, Fragment.walk_each, Fragment.repeated, hkey]

theorem cell {index : Nat} (h : Written q a row [.cell index] steps) :
    steps = [.gap, RowAt.step row index, .settle false] := by
  obtain ⟨_, _, _, _, hfs, rfl⟩ := h
  obtain ⟨rfl, -⟩ := hfs.cell_inv
  rfl

/-- A text, what it opens, and a closing parenthesis. -/
theorem bracket {opening : String}
    (h : Written q a row (.text opening :: ds ++ [.text ")"]) steps) :
    ∃ inner, Written q a row ds inner ∧ steps = .token opening :: inner ++ [.token ")"] := by
  obtain ⟨first, last, hfirst, hlast, rfl⟩ := h.append
  obtain ⟨start, inner, hstart, hinner, rfl⟩ := hfirst.cons
  obtain rfl := hstart.text
  obtain rfl := hlast.text
  exact ⟨inner, hinner, rfl⟩

theorem enclosed {opening : String} (h : Written q a row (enclosed opening ds) steps) :
    ∃ inner, Written q a row ds inner ∧
      steps = .token opening :: (.enter :: inner ++ [.exit]) ++ [.token ")"] := by
  have hbracket : Written q a row (.text opening :: [nested ds] ++ [.text ")"]) steps := h
  obtain ⟨_, hnested, rfl⟩ := hbracket.bracket
  obtain ⟨inner, hinner, rfl⟩ := hnested.scope.group
  exact ⟨inner, hinner, rfl⟩

/-- Parts are written one after the other, with what separates them between. -/
theorem intercalate {parts : List (List Draft)} {between : List Step}
    (hsep : ∀ {steps}, Written q a row [d] steps → steps = between)
    (h : Written q a row (List.intercalate [d] parts) steps) :
    ∃ pieces, List.Forall₂ (Written q a row) parts pieces ∧
      steps = List.intercalate between pieces := by
  induction parts generalizing steps with
  | nil =>
    obtain rfl := h.nil
    exact ⟨[], .nil, rfl⟩
  | cons part parts ih =>
    cases parts with
    | nil =>
      rw [List.intercalate_singleton] at h
      exact ⟨[steps], .cons h .nil, by simp⟩
    | cons part' parts =>
      rw [List.intercalate_cons_cons] at h
      obtain ⟨first, rest, hfirst, hrest, rfl⟩ := h.append
      obtain ⟨piece, separator, hpiece, hseparator, rfl⟩ := hfirst.append
      obtain rfl := hsep hseparator
      obtain ⟨pieces, hpieces, rfl⟩ := ih hrest
      refine ⟨piece :: pieces, .cons hpiece hpieces, ?_⟩
      rw [List.intercalate_cons_of_ne_nil]
      cases hpieces
      exact List.cons_ne_nil _ _

/-- A fault is not written at all. -/
theorem fault {cause : Cause} (h : Written q a row (.fault cause :: ds) steps) : False := by
  obtain ⟨_, _, _, _, hfs, -⟩ := h
  cases hfs

end Written

end PreparedSql.Draft
