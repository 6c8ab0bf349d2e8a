import PreparedSql.Proofs.Compiler.MarkerNames
import PreparedSql.Proofs.Compiler.Rows
import PreparedSql.Proofs.Template.LineBreaks

/-!
# Breaking the lines of compiled statements

Statements compile to the same fragments whether lines are broken or not, and what an execution
gives differs in layout only. As far as names are quoted, nothing that a compiled statement shows
ends in a space, except what separates the rows of a repetition and, possibly, texts that the
arguments supply. So the pieces that both layouts show are the tokens, supplied texts and markers
as they stand. So are the separators, unless a row begins with a call of a function whose name
begins with a closing parenthesis, which takes back the space before it.
-/

namespace PreparedSql

/-! ## Texts without a space at the end -/

namespace Firm

theorem of_notMem {s : String} (h : ' ' ∉ s.toList) : Firm s :=
  fun hlast => h (List.mem_of_getLast? hlast)

theorem of_solid {s : String} (h : Solid s) : Firm s := by
  obtain ⟨c, hc, hblank⟩ := h
  rw [Firm, hc]
  rintro ⟨⟩
  exact absurd hblank (by decide)

theorem of_quoted {s : String} (h : Token.quoted s = true) : Firm s := by
  intro hlast
  simp [Token.quoted, hlast] at h

theorem of_numeric {s : String} (h : Token.numeric s = true) : Firm s := by
  refine of_notMem fun hmem => ?_
  simp only [Token.numeric, Bool.and_eq_true, List.all_eq_true] at h
  exact absurd (h.1 _ hmem) (by decide)

theorem quote {q : QuoteMark} (hq : q ≠ .plain) (name : String) : Firm (q.quote name) :=
  of_quoted (Token.quoted_quote hq name)

theorem column {q : QuoteMark} (hq : q ≠ .plain) (table name : String) :
    Firm (q.column table name) :=
  of_quoted (Token.quoted_append _ (Token.quoted_quote hq name))

theorem qualifier (q : QuoteMark) (name : String) : Firm (q.qualifier name) := by
  have hpoint : Solid "." := ⟨'.', by decide, by decide⟩
  unfold QuoteMark.qualifier
  split
  · decide
  · exact of_solid (hpoint.append _)

theorem literal {d : Dialect} {v : Value} {sql : String} (h : v.literal d = .ok sql) :
    Firm sql :=
  Token.of_literal h (by decide) (fun _ => of_numeric) (fun s => of_quoted (Token.quoted_text d s))
    fun b => of_quoted (Token.quoted_bytes d b)

/-- With quoted names, no text of a statement ends in a space. -/
theorem wording {s : Spelling} {P : String → Prop} {w : String} (hq : s.quote ≠ .plain)
    (h : Draft.Wording s P w) : Firm w := by
  cases h with
  | word h =>
    have hall : ∀ w ∈ Draft.keywords, Firm w := by decide +kernel
    exact hall w h
  | call _ =>
    have hopening : Solid "(" := ⟨'(', by decide, by decide⟩
    exact of_solid (hopening.append _)
  | ident name => exact quote hq name
  | literal h => exact literal h

end Firm

/-- No text that is to be written as it is ends in a space. -/
structure Arguments.Firm (a : Arguments) : Prop where
  inline : ∀ key s, a.inline key = some s → PreparedSql.Firm s
  cells : ∀ key, ∀ row ∈ a.rows key, ∀ s, .inline s ∈ row → PreparedSql.Firm s

/-! ## What executions write -/

/-- The step does not write a text that ends in a space, unless it is one of those that separate
rows. -/
def Step.EndsFirm (separators : List String) : Step → Prop
  | .token s | .delimiter s _ => Firm s
  | .write s => Firm s ∨ s ∈ separators
  | _ => True

namespace Step

variable {separators : List String}

/-- A supplied text, between a gap and what follows. -/
theorem endsFirm_supply {step : Step} (h : step.EndsFirm []) (glued : Bool) :
    ∀ s ∈ [.gap, step, .settle glued], s.EndsFirm separators := by
  simp only [List.forall_mem_cons]
  refine ⟨trivial, ?_, trivial, by simp⟩
  cases step with
  | write s => exact .inl (h.resolve_right (by simp))
  | _ => exact h

/-- Where nothing else ends in a space, the pieces are the texts that are shown as they are. -/
theorem pieces_of_endsFirm {spell : Marker → String} {steps : List Step}
    (hempty : "" ∉ separators) (h : ∀ step ∈ steps, step.EndsFirm separators)
    (hmarkers : ∀ m ∈ steps.filterMap marker?, Firm (spell m)) :
    pieces separators spell steps = (shown spell steps).filter (· ≠ "") := by
  induction steps with
  | nil => rfl
  | cons step steps ih =>
    obtain ⟨hstep, hsteps⟩ := List.forall_mem_cons.1 h
    have hfirm {s : String} (hs : Firm s) : Text.pieces s = [s].filter (· ≠ "") := by
      rw [Text.pieces_of_firm hs]
      split <;> simp_all
    have hcut : step.cut separators spell = (step.shown? spell).toList.filter (· ≠ "") := by
      cases step with
      | token s | delimiter s kind => exact hfirm hstep
      | marker m => exact hfirm (hmarkers m (by simp [marker?]))
      | write s =>
        by_cases hs : s ∈ separators
        · have hne : s ≠ "" := fun h => hempty (h ▸ hs)
          simp [cut, shown?, hs, hne]
        · have hpieces := hfirm (hstep.resolve_right hs)
          simpa [cut, shown?, hs] using hpieces
      | _ => rfl
    have hrest := ih hsteps fun m hm => hmarkers m (by
      rw [List.filterMap_cons]
      split
      · exact hm
      · exact List.mem_cons_of_mem _ hm)
    rw [pieces_cons, hcut, hrest, ← List.filter_append]
    cases hshown : step.shown? spell <;> simp [shown, hshown]

end Step

theorem Hole.endsFirm_step {a : Arguments} (ha : a.Firm) (q : QuoteMark) (h : Hole) :
    (h.step a q).EndsFirm [] := by
  cases h with
  | param p name => cases hp : a.param p <;> simp [Hole.step, hp, Step.EndsFirm]
  | inline key =>
    cases hi : a.inline key with
    | none => simp [Hole.step, hi, Step.EndsFirm]
    | some s => simp [Hole.step, hi, Step.EndsFirm, ha.inline key s hi]
  | schema s => exact .inl (.qualifier q _)
  | catalog c => exact .inl (.qualifier q _)
  | typeId t =>
    cases ht : a.typeId t with
    | some number =>
      simp only [Hole.step, ht]
      exact .inl (.of_numeric (Token.numeric_intToString _))
    | none =>
      have hzero : Firm "0" := by decide
      cases hi : t.interface <;> simp [Hole.step, ht, hi, Step.EndsFirm, hzero]

/-- What is written in place of a cell is one of the texts of its row. -/
theorem RowAt.exists_inline_of_write {a : Arguments} {row : Option RowAt} (hrow : RowAt.Held a row)
    {column : Nat} {s : String} (h : RowAt.step row column = .write s) :
    ∃ key, ∃ cells ∈ a.rows key, .inline s ∈ cells := by
  cases row with
  | none => cases h
  | some r =>
    cases hcell : r.cells[column]? with
    | none => simp [RowAt.step, hcell] at h
    | some cell =>
      cases cell with
      | value v => simp [RowAt.step, hcell] at h
      | inline s' =>
        obtain rfl : s' = s := by simpa [RowAt.step, hcell] using h
        exact ⟨r.collection, r.cells, List.mem_of_getElem? (hrow r rfl),
          List.mem_of_getElem? hcell⟩

theorem RowAt.endsFirm_step {a : Arguments} (ha : a.Firm) {row : Option RowAt}
    (hrow : RowAt.Held a row) (column : Nat) : (RowAt.step row column).EndsFirm [] := by
  cases hstep : RowAt.step row column with
  | write s =>
    obtain ⟨key, cells, hcells, hs⟩ := exists_inline_of_write hrow hstep
    exact .inl (ha.cells key cells hcells s hs)
  | _ =>
    have hsupplies := RowAt.supplies_step row column
    simp [hstep, Step.supplies, Step.EndsFirm] at hsupplies ⊢

namespace Draft

/-- However the draft is written, none of its steps writes a text with a space at its end. -/
def WritesFirm (s : Spelling) (a : Arguments) (ds : List Draft) : Prop :=
  ∀ row, RowAt.Held a row → ∀ steps, Written s.quote a row ds steps →
    ∀ step ∈ steps, step.EndsFirm separators

theorem writesFirm_append {s : Spelling} {a : Arguments} {ds es : List Draft}
    (hds : WritesFirm s a ds) (hes : WritesFirm s a es) : WritesFirm s a (ds ++ es) := by
  intro row hrow steps h
  obtain ⟨first, rest, hfirst, hrest, rfl⟩ := h.append
  exact List.forall_mem_append.2 ⟨hds row hrow _ hfirst, hes row hrow _ hrest⟩

theorem pervasive_writesFirm {s : Spelling} {a : Arguments} (hq : s.quote ≠ .plain) (ha : a.Firm) :
    Pervasive s (fun _ => True) (WritesFirm s a) (WritesFirm s a) where
  weaken h := h
  nil _ _ _ h := by simp [h.nil]
  append := writesFirm_append
  concat := writesFirm_append
  lead {w ds} hw hds := by
    have hword : WritesFirm s a [.text w] := fun _ _ _ h => by
      simp [h.text, Step.EndsFirm, Firm.wording hq hw]
    exact writesFirm_append hword hds
  closing _ _ _ h := by
    have hclosing : Firm ")" := by decide
    simp [h.text, Step.EndsFirm, hclosing]
  line _ _ _ h := by
    have hempty : Firm "" := by decide
    simp [h.delimiter, Step.EndsFirm, hempty]
  comma _ _ _ _ h := by
    have hcomma : Firm "," := by decide
    simp [h.delimiter, Step.EndsFirm, hcomma]
  qualifier _ _ _ _ h := h.hole ▸ Step.endsFirm_supply (Hole.endsFirm_step ha _ _) _
  column t name _ _ _ h := by
    obtain ⟨w, rfl | ⟨table, rfl⟩, rfl⟩ := h.column
    · simp [Step.EndsFirm, Firm.quote hq name]
    · simp [Step.EndsFirm, Firm.column hq table name]
  introduce _ _ _ _ h := by simp [h.introduce]
  tableName _ _ _ _ h := by
    rcases h.tableName with rfl | ⟨name, rfl⟩
    · simp
    · simp [Step.EndsFirm, Firm.quote hq name]
  group hds row hrow _ h := by
    obtain ⟨inner, hinner, rfl⟩ := h.group
    have hfirm := hds row hrow _ hinner
    simpa [Step.EndsFirm, or_imp, forall_and] using hfirm
  scope hds row hrow _ h := hds row hrow _ h.scope
  choice {key main alternative} hmain halternative row hrow _ h := by
    obtain ⟨inner, hinner, rfl⟩ := h.choice
    have hfirm : ∀ step ∈ inner, step.EndsFirm separators := by
      split at hinner
      · exact halternative row hrow _ hinner
      · exact hmain row hrow _ hinner
    simpa [Step.EndsFirm, or_imp, forall_and] using hfirm
  fault _ _ _ _ h := h.fault.elim
  hole _ _ _ _ _ h := h.hole ▸ Step.endsFirm_supply (Hole.endsFirm_step ha _ _) _
  param _ _ _ _ h := by
    obtain ⟨name, rfl⟩ := h.param
    exact Step.endsFirm_supply (Hole.endsFirm_step ha _ _) _
  cell _ _ hrow _ h := h.cell ▸ Step.endsFirm_supply (RowAt.endsFirm_step ha hrow _) _
  each {key body empty between} hbetween _ hbody hempty row hrow steps h := by
    have hinner {inner : List Step} (hfirm : ∀ step ∈ inner, step.EndsFirm separators)
        (hsteps : steps = .gap :: inner ++ [.settle false]) :
        ∀ step ∈ steps, step.EndsFirm separators := by
      subst hsteps
      simpa [Step.EndsFirm, or_imp, forall_and] using hfirm
    have hfresh {inner : List Step} (hfirm : ∀ step ∈ inner, step.EndsFirm separators) :
        ∀ step ∈ .fresh :: inner, step.EndsFirm separators :=
      List.forall_mem_cons.2 ⟨trivial, hfirm⟩
    cases hkey : a.rows key with
    | nil =>
      obtain ⟨inner, hwritten, hsteps⟩ := h.each_nil hkey
      exact hinner (hfresh (hempty row hrow _ hwritten)) hsteps
    | cons first rest =>
      obtain ⟨inner, hwritten, hsteps⟩ := h.each_rows (by simp [hkey])
      have hseparator : ∀ step ∈ [Step.write between], step.EndsFirm separators := by
        simp [Step.EndsFirm, hbetween]
      refine hinner (intercalate_mapIdx_pred
        (S := fun steps : List Step => ∀ step ∈ steps, step.EndsFirm separators) ?_ ?_ ?_) hsteps
      · exact fun h h' =>
          List.forall_mem_append.2 ⟨List.forall_mem_append.2 ⟨h, hseparator⟩, h'⟩
      · simp [hkey]
      · intro index cells hcells
        refine hfresh (hbody (some ⟨key, index, cells⟩) ?_ _ (hwritten index cells))
        rintro _ ⟨⟩
        exact hcells

end Draft

/-- Markers begin with a sign. -/
theorem Template.inked_spell (t : Template) (a : Arguments) (m : Marker) : Inked (t.spell a m) := by
  have hquestion : Inked "?" := by decide
  have hdollar : Inked "$" := by decide
  have hcolon : Inked ":" := by decide
  unfold Template.spell
  cases t.format.markers with
  | positional => exact hquestion
  | dollar => exact hdollar.append_left _
  | question => exact hquestion.append_left _
  | named => exact hcolon.append_left _

namespace Compiler

variable {c : Compiler} {statement : Statement} {t : Template} {a : Arguments}

/-- Markers never end in a space: their names end in a number. -/
theorem firm_marker (h : c.compile statement = .ok t) {m : Marker}
    (hm : m ∈ (t.steps a).filterMap Step.marker?) : Firm (t.spell a m) := by
  obtain ⟨number, hnumber⟩ := exists_number h a
  unfold Template.spell
  cases t.format.markers with
  | positional => exact .of_solid solid_question
  | dollar => exact .of_solid ((solid_numeral _).append _)
  | question => exact .of_solid ((solid_numeral _).append _)
  | named =>
    have hname : Solid m.name := (hnumber m hm).name_eq ▸ m.slot.solid_markerName
    exact .of_solid (hname.append ":")

/-- No step of a compiled statement writes a text with a space at its end, except between rows. -/
theorem endsFirm_of_mem_steps (hq : c.options.quoteNames = true) (h : c.compile statement = .ok t)
    (ha : a.Firm) : ∀ step ∈ t.steps a, step.EndsFirm Draft.separators := by
  obtain ⟨ns, hresolves⟩ := resolves_of_compile h
  have hplain : c.spelling.quote ≠ .plain := quote_ne_plain hq
  have hfirm : Draft.WritesFirm c.spelling a (statement.draft c.spelling) :=
    statement.pervasive_draft (Draft.pervasive_writesFirm hplain ha) fun _ _ => trivial
  rw [Template.steps, format_of_compile h]
  exact hfirm none (by simp [RowAt.Held]) _ ⟨_, _, _, _, hresolves, rfl⟩

/-- Nothing that a compiled statement shows ends in a space, except what separates rows. -/
theorem firm_of_mem_shown (hq : c.options.quoteNames = true) (h : c.compile statement = .ok t)
    (ha : a.Firm) {s : String} (hs : s ∈ t.shown a) : Firm s ∨ s ∈ Draft.separators := by
  obtain ⟨step, hstep, hshown⟩ := List.mem_filterMap.1 hs
  have hends := endsFirm_of_mem_steps hq h ha step hstep
  cases step with
  | marker m =>
    cases hshown
    exact .inl (firm_marker h (List.mem_filterMap.2 ⟨_, hstep, rfl⟩))
  | token w | delimiter w kind =>
    cases hshown
    exact .inl hends
  | write w =>
    cases hshown
    exact hends
  | _ => cases hshown

/-- Compiled statements are made for whole separators: no row looks back, and what the arguments
supply is not taken for a separator. -/
theorem fits_compile (hq : c.options.quoteNames = true)
    (hfunctions : ∀ name ∈ statement.functions, name.toList.head? ≠ some ')')
    (h : c.compile statement = .ok t) (ha : a.Firm)
    (hcells : ∀ key, ∀ row ∈ a.rows key, .inline "" ∉ row) (hcomplete : Complete (t.steps a)) :
    Fragment.Fits Draft.separators (t.spell a) a t.format.quote none t.fragments := by
  have hseparators : ∀ s ∈ Draft.separators, ¬ Firm s := by decide
  refine ⟨by decide, fun m => ?_, fun hole s hs hin => ?_, fun row hrow index s hs => ?_,
    by simp [RowAt.Held], rowsApart_compile hq hfunctions h, hcomplete⟩
  · obtain ⟨c, hc, hne⟩ := t.inked_spell a m
    exact Text.pieces_ne_nil hc hne
  · have hfirm := hole.endsFirm_step ha t.format.quote
    rw [hs] at hfirm
    exact hseparators s hin (hfirm.resolve_right (by simp))
  · obtain ⟨key, cells, hmem, hinline⟩ := RowAt.exists_inline_of_write hrow hs
    have hfirm : Firm s := ha.cells key cells hmem s hinline
    have hne : s ≠ "" := fun hempty => hcells key cells hmem (hempty ▸ hinline)
    refine ⟨fun hin => hseparators s hin hfirm, ?_⟩
    simp [Text.pieces_of_firm hfirm, hne]

/-- The compiler with lines broken or not. -/
def withPretty (c : Compiler) (pretty : Bool) : Compiler :=
  { c with options := { c.options with pretty } }

/-- Statements compile to the same fragments, with lines broken or not. -/
theorem compile_withPretty (c : Compiler) (pretty : Bool) (statement : Statement) :
    (c.withPretty pretty).compile statement =
      (c.compile statement).map (·.withPretty pretty) := by
  have hfragments : (c.withPretty pretty).fragments statement = c.fragments statement := rfl
  simp only [compile, hfragments]
  cases c.fragments statement <;> rfl

/-- Breaking lines is layout only. A statement is refused for the same reason in both layouts, or
it compiles in both; then every execution fails alike or gives the same values and two texts that
show the same pieces, with white space between two pieces in the broken lines wherever there is
some in the single one.

The pieces are what is shown without the spaces at its end. If no text that the arguments supply
ends in a space, these are the tokens, supplied texts and markers as they are; only what separates
rows loses the space after it. If moreover no function of the statement has a name that begins with
a closing parenthesis and no cell is empty, the separators are shown as they are, too. -/
theorem differs_in_layout (hq : c.options.quoteNames = true) (statement : Statement) :
    (∃ failure, ∀ pretty, (c.withPretty pretty).compile statement = .error failure ∧
        (c.withPretty pretty).prepare statement = .error failure) ∨
      ∃ raw prepared : Bool → Template,
        (∀ pretty, (c.withPretty pretty).compile statement = .ok (raw pretty) ∧
          (c.withPretty pretty).prepare statement = .ok (prepared pretty)) ∧
        ∀ a : Arguments,
          let shown := (raw false).shown a
          let alike (pieces : List String) :=
            SameButLayout pieces ((raw false).fill a) ((raw true).fill a) ∧
              SameButLayout pieces ((prepared false).fill a) ((prepared true).fill a)
          alike (shown.flatMap Text.pieces) ∧
          (a.Firm → ∀ s ∈ shown, s = "" ∨ Text.pieces s = [s] ∨ s ∈ Draft.separators) ∧
          (a.Firm → (∀ key, ∀ row ∈ a.rows key, .inline "" ∉ row) →
            (∀ name ∈ statement.functions, name.toList.head? ≠ some ')') →
            alike (shown.filter (· ≠ ""))) := by
  cases hcompile : c.compile statement with
  | error failure =>
    refine .inl ⟨failure, fun pretty => ?_⟩
    have h : (c.withPretty pretty).compile statement = .error failure := by
      rw [compile_withPretty, hcompile]
      rfl
    exact ⟨h, prepare_of_error h⟩
  | ok t =>
    have hraw (pretty : Bool) :
        (c.withPretty pretty).compile statement = .ok (t.withPretty pretty) := by
      rw [compile_withPretty, hcompile]
      rfl
    have hspaced (pretty : Bool) : Fragment.WellSpaced pretty t.fragments :=
      @wellSpaced_compile (c.withPretty pretty) statement _ hq (hraw pretty)
    have hcondense (pretty : Bool) (a : Arguments) :
        (t.withPretty pretty).condense.fill a = (t.withPretty pretty).fill a := by
      have hinto := @Template.fillInto_condense (t.withPretty pretty) (hspaced pretty) a
      rw [Template.fill, hinto]
      rfl
    refine .inr ⟨t.withPretty, fun pretty => (t.withPretty pretty).condense,
      fun pretty => ⟨hraw pretty, prepare_of_compile (hraw pretty)⟩, fun a => ?_⟩
    intro shown alike
    -- Both conclusions are about the template as it is compiled: condensing it changes no text.
    have halike {pieces : List String} (h : SameButLayout pieces ((t.withPretty false).fill a)
        ((t.withPretty true).fill a)) : alike pieces := by
      refine ⟨h, ?_⟩
      simpa only [hcondense] using h
    refine ⟨halike ?_, fun ha s hs => ?_, fun ha hcells hfunctions => halike ?_⟩
    · have hsame := Template.fill_withPretty (hspaced true) a [] fun hne => absurd rfl hne
      rwa [Step.pieces_nil] at hsame
    · by_cases hempty : s = ""
      · exact .inl hempty
      · rcases firm_of_mem_shown hq hcompile ha hs with hfirm | hseparator
        · exact .inr (.inl (by rw [Text.pieces_of_firm hfirm, if_neg hempty]))
        · exact .inr (.inr hseparator)
    · have hsame := Template.fill_withPretty (hspaced true) a Draft.separators
        fun _ hcomplete => fits_compile hq hfunctions hcompile ha hcells hcomplete
      rwa [Step.pieces_of_endsFirm (by decide) (endsFirm_of_mem_steps hq hcompile ha)
        fun _ => firm_marker hcompile] at hsame

/-- A test on a subquery and one against a collection, with a name that ends in a space. -/
theorem differs_in_layout_nested :
    let c : Compiler := ⟨.postgresql, { aliasing := false }⟩
    let inner : Query := .ofBody (.select
      { Select.empty with
        projection := [⟨.value (.text "x "), none⟩]
        tables := [⟨.base ⟨1⟩ ⟨"member ", none⟩ none, []⟩] })
    let outer : Query := .ofBody (.select
      { Select.empty with
        projection := [⟨.param ⟨0⟩, some "key"⟩, ⟨.inline "more", none⟩]
        filter := some (.and [.existsRow false inner,
          .inCollection .disjunction [.call "f" []] "ids"]) })
    let a : Arguments :=
      { param := fun _ => some (.bool true)
        inline := fun _ => some "now()"
        rows := fun _ => [[.value .null], [.inline "7"]] }
    let pieces : List String :=
      ["SELECT", "$1", "AS", "\"key\"", ",", "now()", "WHERE", "EXISTS (", "SELECT", "'x '", "FROM",
        "\"member \"", ")", "AND", "(", "f(", ")", "=", "$2", " OR ", "f(", ")", "=", "7", ")"]
    c.options.quoteNames = true ∧ ∃ raw prepared : Bool → Template,
      (∀ pretty, (c.withPretty pretty).compile (.query outer) = .ok (raw pretty) ∧
        (c.withPretty pretty).prepare (.query outer) = .ok (prepared pretty)) ∧
      SameButLayout pieces ((raw false).fill a) ((raw true).fill a) ∧
      SameButLayout pieces ((prepared false).fill a) ((prepared true).fill a) := by
  intro c inner outer a pieces
  obtain ⟨t, ht, hpieces⟩ := Draft.exists_ok_of_any
    (x := (c.withPretty false).compile (.query outer))
    (P := fun t => (t.shown a).filter (· ≠ "") = pieces) (by decide +kernel)
  have hnow : Firm "now()" := by decide
  have hseven : Firm "7" := by decide
  have ha : a.Firm := ⟨by simp [a, hnow], by simp [a, hseven]⟩
  obtain ⟨failure, hrefused⟩ | ⟨raw, prepared, hcompile, hlayout⟩ :=
    differs_in_layout (c := c) rfl (.query outer)
  · cases ht.symm.trans (hrefused false).1
  · obtain rfl := Except.ok.inj (ht.symm.trans (hcompile false).1)
    obtain ⟨-, -, hwhole⟩ := hlayout a
    obtain ⟨hraw, hprepared⟩ := hwhole ha (by simp [a]) (by decide)
    exact ⟨rfl, raw, prepared, hcompile, hpieces ▸ hraw, hpieces ▸ hprepared⟩

/-- A function whose name begins with a closing parenthesis takes back the space after what
separates the rows, so the separator does not stand in the text as it is. -/
theorem separator_not_whole :
    ¬ ∀ (c : Compiler) (statement : Statement) (raw : Bool → Template) (a : Arguments),
      c.options.quoteNames = true → a.Firm → (∀ key, a.inline key ≠ some "") →
      (∀ key, ∀ row ∈ a.rows key, .inline "" ∉ row) →
      (∀ pretty, (c.withPretty pretty).compile statement = .ok (raw pretty)) →
      SameButLayout (((raw false).shown a).filter (· ≠ "")) ((raw false).fill a)
        ((raw true).fill a) := by
  intro hall
  let c : Compiler := ⟨.postgresql, {}⟩
  let statement : Statement := .query (.ofBody (.select
    { Select.empty with
      projection := [⟨.value (.int32 1), none⟩]
      filter := some (.inCollection .disjunction [.call ")f" []] "ids") }))
  let a : Arguments := { rows := fun _ => [[.value (.int32 1)], [.value (.int32 2)]] }
  obtain ⟨t, ht, hshown, htext⟩ := Draft.exists_ok_of_any (x := c.compile statement)
    (P := fun t => " OR " ∈ ((t.withPretty false).shown a).filter (· ≠ "") ∧
      ((t.withPretty false).fill a).toOption.map (·.text) =
        some "SELECT 1 WHERE)f() = $1 OR)f() = $2")
    (by decide +kernel)
  have hraw (pretty : Bool) :
      (c.withPretty pretty).compile statement = .ok (t.withPretty pretty) := by
    rw [compile_withPretty, ht]
    rfl
  have hsame := hall c statement t.withPretty a rfl ⟨by simp [a], by simp [a]⟩ (by simp [a])
    (by simp [a]) hraw
  cases hcompact : (t.withPretty false).fill a with
  | error failure => simp [hcompact, Except.toOption] at htext
  | ok compact =>
    cases hpretty : (t.withPretty true).fill a with
    | error failure => simp [hcompact, hpretty, SameButLayout] at hsame
    | ok pretty =>
      rw [hcompact, hpretty] at hsame
      obtain ⟨hstands, -⟩ := hsame.2.isInfix hshown
      have hcompactText : compact.text = "SELECT 1 WHERE)f() = $1 OR)f() = $2" := by
        simpa [hcompact, Except.toOption] using htext
      rw [hcompactText] at hstands
      exact absurd hstands (by decide +kernel)

end Compiler

end PreparedSql
