import PreparedSql.Proofs.Draft.Neatness
import PreparedSql.Proofs.Draft.Resolution
import PreparedSql.Proofs.Template.Condensing

/-!
# Compiled statements are well spaced

Giving names keeps a neat draft neat as long as names are quoted, so the
templates of statements meet what condensing asks of a tree, and condensing them
changes nothing that an execution can tell.
-/

namespace PreparedSql

open Fragment (WellSpaced)

namespace Draft.Resolves

variable {q : QuoteMark} {bare : Option TableId} {ns ns' : Names} {ds : List Draft}
  {fs : List Fragment}

/-- A list that writes something first is not written with a group in front. -/
theorem leadAll_ne_indented (hq : q ≠ .plain) (h : Resolves q bare ns ds fs ns') (hds : Leads ds) :
    Fragment.leadAll fs ≠ .indented := by
  -- Quoted names are never empty, so a name in front leads.
  have name {s : String} (hs : s ≠ "") (fs : List Fragment) :
      Fragment.leadAll (.text s :: fs) ≠ .indented := by
    simp [Fragment.leadAll, Fragment.lead, hs, Fragment.Lead.orElse]
  cases h with
  | nil => decide
  | text s _ => exact name hds _
  | bareColumn t column _ => exact name (Inked.quote hq column).ne_empty _
  | column column _ _ _ => exact name (Inked.column hq _ column).ne_empty _
  | hole _ _ _ | param _ _ | choice _ _ _ _ | each _ _ _ _ _ | cell _ _ =>
    simp [Fragment.leadAll, Fragment.lead, Fragment.Lead.orElse]
  | delimiter _ _ _ | group _ _ | introduce _ _ | ownName _ _ | tableName _ _ | scope _ _ _ =>
    exact hds.elim

/-- What is written for a neat draft is well spaced. -/
theorem wellSpaced (hq : q ≠ .plain) (pretty : Bool) (h : Resolves q bare ns ds fs ns') :
    NeatAll ds → WellSpaced pretty fs := by
  have token {s : String} {fs : List Fragment} (hs : s ≠ " ") (hfs : WellSpaced pretty fs) :
      WellSpaced pretty (.text s :: fs) :=
    .cons rfl (by simpa [Fragment.token?] using hs) (by simp [Fragment.branches]) .nil hfs
  induction h with
  | nil => exact fun _ => .nil
  | text s _ ih =>
    rintro ⟨hs, hds⟩
    exact token hs (ih hds)
  | delimiter s kind _ ih =>
    rintro ⟨hs, hds⟩
    exact .cons rfl (by simpa [Fragment.token?, Neat] using hs) (by simp [Fragment.branches]) .nil
      (ih hds)
  | group _ _ inner ih =>
    rintro ⟨hchildren, hds⟩
    exact .cons rfl (by simp [Fragment.token?]) (by simp [Fragment.branches]) (inner hchildren)
      (ih hds)
  | hole _ _ _ ih | param _ _ ih | cell _ _ ih =>
    rintro ⟨-, hds⟩
    exact .cons rfl (by simp [Fragment.token?]) (by simp [Fragment.branches]) .nil (ih hds)
  | bareColumn t name _ ih =>
    rintro ⟨-, hds⟩
    exact token (Inked.quote hq name).ne_space (ih hds)
  | column name _ _ _ ih =>
    rintro ⟨-, hds⟩
    exact token (Inked.column hq _ name).ne_space (ih hds)
  | introduce _ _ ih | ownName _ _ ih =>
    rintro ⟨-, hds⟩
    exact ih hds
  | tableName _ _ ih =>
    rintro ⟨-, hds⟩
    exact token (Inked.quote hq _).ne_space (ih hds)
  | scope _ _ _ inner ih =>
    rintro ⟨hchildren, hds⟩
    exact (inner hchildren).append (ih hds)
  | choice key hmain halternative _ first second ih =>
    rintro ⟨⟨main, alternative⟩, hds⟩
    refine .cons (by simp [Fragment.parts]) (by simp [Fragment.token?]) ?_
      ((first main.1).append (second alternative.1)) (ih hds)
    simpa [Fragment.branches] using ⟨leadAll_ne_indented hq hmain main.2,
      leadAll_ne_indented hq halternative alternative.2⟩
  | each key between hbody hempty _ first second ih =>
    rintro ⟨⟨body, empty⟩, hds⟩
    refine .cons (by simp [Fragment.parts]) (by simp [Fragment.token?]) ?_
      ((first body.1).append (second empty.1)) (ih hds)
    simpa [Fragment.branches] using ⟨leadAll_ne_indented hq hbody body.2,
      leadAll_ne_indented hq hempty empty.2⟩

end Draft.Resolves

namespace Compiler

variable {c : Compiler} {statement : Statement} {t : Template}

theorem quote_ne_plain (h : c.options.quoteNames = true) : c.format.quote ≠ .plain := by
  simp only [format, h, if_true]
  cases c.dialect <;> decide

theorem wellSpaced_compile (hq : c.options.quoteNames = true) (h : c.compile statement = .ok t) :
    WellSpaced t.format.pretty t.fragments := by
  obtain ⟨ns, hresolves⟩ := resolves_of_compile h
  have hplain := quote_ne_plain hq
  exact hresolves.wellSpaced hplain _ (statement.neatAll_draft hplain)

/-- Condensing a compiled statement changes nothing that an execution can tell.
Its result is the same, and so is what it leaves in any sink. -/
theorem fill_condense_compile (hq : c.options.quoteNames = true)
    (h : c.compile statement = .ok t) (a : Arguments) :
    t.condense.fill a = t.fill a ∧ ∀ sink, t.condense.fillInto a sink = t.fillInto a sink := by
  have hinto (sink : Sink) : t.condense.fillInto a sink = t.fillInto a sink :=
    Template.fillInto_condense (wellSpaced_compile hq h) a sink
  exact ⟨by simp only [Template.fill, hinto], hinto⟩

/-- A choice between a test on a subquery and one against a collection, over lines
that are broken and indented. -/
theorem fill_condense_compile_choice :
    let c : Compiler := ⟨.postgresql, { pretty := true, reserved := ["A"] }⟩
    let inner : Query := .ofBody (.select
      { Select.empty with
        projection := [⟨.value (.bool true), none⟩]
        tables := [⟨.base ⟨1⟩ ⟨"member", none⟩ none, []⟩]
        filter := some (.binary .eq (.column ⟨1⟩ "owner") (.column ⟨0⟩ "id")) })
    let outer : Query := .ofBody (.select
      { Select.empty with
        projection := [⟨.column ⟨0⟩ "id", some "key"⟩, ⟨.param ⟨0⟩, none⟩]
        tables := [⟨.base ⟨0⟩ ⟨"team", some ⟨0, "app", none⟩⟩ none, []⟩]
        filter := some (.choice "k" (.existsRow false inner)
          (.inCollection .list [.column ⟨0⟩ "id"] "ids")) })
    let a : Arguments :=
      { param := fun _ => some (.bool true), rows := fun _ => [[.value .null], [.inline "7"]] }
    ∃ t, c.compile (.query outer) = .ok t ∧ t.condense.fill a = t.fill a ∧
      ∀ sink, t.condense.fillInto a sink = t.fillInto a sink := by
  intro c inner outer a
  obtain ⟨t, ht, -⟩ := Draft.exists_ok_of_any (x := c.compile (.query outer))
    (P := fun t => t.format.pretty = true) (by decide +kernel)
  exact ⟨t, ht, fill_condense_compile rfl ht a⟩

end Compiler

end PreparedSql
