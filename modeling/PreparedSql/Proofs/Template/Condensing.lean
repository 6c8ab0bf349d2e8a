import PreparedSql.Proofs.Layout.Held
import PreparedSql.Proofs.Template.Steps
import PreparedSql.Proofs.Template.Tree
import PreparedSql.Template.Condense

/-!
# Condensing keeps the result

An execution of a condensed template gives what an execution of the template
itself gives: the same failure, or the same text and values. Open fragments keep
their order, so the markers and what is found missing are the same for all
templates. The texts are compared by running the two layouts in step, fragment
by fragment, and agree for well-spaced templates.
-/

namespace PreparedSql

namespace Step

/-- Steps that leave spacing alone: they write a supplied text or find it
missing. -/
def supplies : Step → Bool
  | .write _ | .marker _ | .missing _ => true
  | _ => false

end Step

theorem Hole.supplies_step (a : Arguments) (q : QuoteMark) (h : Hole) :
    (h.step a q).supplies = true := by
  cases h with
  | param p name => cases hp : a.param p <;> simp [Hole.step, hp, Step.supplies]
  | inline key => cases hi : a.inline key <;> simp [Hole.step, hi, Step.supplies]
  | schema s => rfl
  | catalog c => rfl
  | typeId t =>
    cases ht : a.typeId t with
    | some number => simp [Hole.step, ht, Step.supplies]
    | none => cases hi : t.interface <;> simp [Hole.step, ht, hi, Step.supplies]

theorem RowAt.supplies_step (row : Option RowAt) (column : Nat) :
    (RowAt.step row column).supplies = true := by
  cases row with
  | none => rfl
  | some r =>
    simp only [RowAt.step]
    split <;> rfl

theorem Layout.Level.act {indent : Nat} {direct filling : Page} {step : Step}
    (h : Level indent direct filling) (hs : step.supplies = true) (pretty : Bool)
    (spell : Marker → String) :
    Level indent (step.act pretty spell direct) (step.act pretty spell filling) := by
  cases step with
  | write s => exact h.write s
  | marker m => exact h.write (spell m)
  | missing what => exact h
  | _ => simp [Step.supplies] at hs

namespace Fragment

/-- A list of fragments condensed from a page that holds nothing, as it stands in
a branch. -/
def condensedFrom (pretty : Bool) (p : Page) (fs : List Fragment) : List Fragment :=
  (condenseAll pretty p fs).1 ++ (condenseAll pretty p fs).2.collected

theorem condense_choice (pretty : Bool) (p : Page) (key : Key) (main alternative : List Fragment) :
    condense pretty p (.choice key main alternative) =
      (p.collected ++ [.choice key (condensedFrom pretty p.cleared main)
        (condensedFrom pretty p.cleared alternative)], p.cleared.settle false) := rfl

theorem condense_each (pretty : Bool) (p : Page) (key : Key) (body empty : List Fragment)
    (between : String) :
    condense pretty p (.each key body empty between) =
      (p.gap.collected ++ [.each key (condensedFrom pretty p.gap.cleared.fresh body)
        (condensedFrom pretty p.gap.cleared.fresh empty) between],
        p.gap.cleared.settle false) := rfl

/-- Groups are left at the indentation at which they were entered. -/
theorem condenseAll_indent (pretty : Bool) (p : Page) (fs : List Fragment) :
    (condenseAll pretty p fs).2.indent = p.indent := by
  induction fs using listInduction generalizing p with
  | nil => rfl
  | text s fs ih => simp [condenseAll, condense, ih]
  | delimiter s kind fs ih => simp [condenseAll, condense, ih]
  | group indented children fs inner ih =>
    cases indented with
    | false => simp [condenseAll, condense, ih, inner]
    | true =>
      cases pretty <;>
        simp [condenseAll, condense, ih, inner, Page.enter_indent, Page.exit_indent]
  | hole h fs ih => simp [condenseAll, condense, ih]
  | choice key main alternative fs _ _ ih => simp [condenseAll, condense_choice, ih]
  | each key body empty between fs _ _ ih => simp [condenseAll, condense_each, ih]
  | cell index fs ih => simp [condenseAll, condense, ih]

variable {pretty : Bool} {spell : Marker → String} {a : Arguments} {q : QuoteMark}
variable {row : Option RowAt}

/-- Collected text is filled in as one token. -/
theorem actAll_collected (filling p : Page) :
    Step.actAll pretty spell filling (walkAll a q row p.collected) = filling.token p.text := by
  unfold Page.collected
  split
  · next h =>
    rw [List.isEmpty_iff] at h
    exact (Page.token_text_of_nil filling h).symm
  · rfl

end Fragment

namespace Layout

open Fragment

/-- Lays fragments out directly, and condenses them and fills in the result. -/
def run (pretty : Bool) (spell : Marker → String) (a : Arguments) (q : QuoteMark)
    (row : Option RowAt) (l : Layout) (fs : List Fragment) : Layout where
  direct := Step.actAll pretty spell l.direct (walkAll a q row fs)
  held := (condenseAll pretty l.held fs).2
  filling := Step.actAll pretty spell l.filling (walkAll a q row (condenseAll pretty l.held fs).1)

variable {pretty : Bool} {spell : Marker → String} {a : Arguments} {q : QuoteMark}
variable {row : Option RowAt} {l : Layout}

theorem run_append (fs gs : List Fragment) :
    l.run pretty spell a q row (fs ++ gs) =
      (l.run pretty spell a q row fs).run pretty spell a q row gs := by
  simp [run, condenseAll_append, Step.actAll_append]

/-- Filling in what a branch was condensed to. -/
theorem filled_run (fs : List Fragment) :
    (l.run pretty spell a q row fs).filled =
      Step.actAll pretty spell l.filling (walkAll a q row (condensedFrom pretty l.held fs)) := by
  rw [condensedFrom, walkAll_append, Step.actAll_append, actAll_collected]
  rfl

/-- Laying fragments out keeps the pages in step, wherever it starts. Only a
leading indented group needs the line it moves to be held, and then, as after any
token, the line is held again. -/
def Faithful (pretty : Bool) (spell : Marker → String) (a : Arguments) (q : QuoteMark)
    (fs : List Fragment) : Prop :=
  ∀ (row : Option RowAt) (l : Layout), l.InStep → l.Anchored pretty ∨ leadAll fs ≠ .indented →
    (l.run pretty spell a q row fs).InStep ∧
      (l.Anchored pretty ∨ leadAll fs = .content →
        (l.run pretty spell a q row fs).Anchored pretty)

theorem Faithful.cons {f : Fragment} {fs : List Fragment} (hf : Faithful pretty spell a q [f])
    (hfs : Faithful pretty spell a q fs) : Faithful pretty spell a q (f :: fs) := by
  intro row l h ha
  have hlead : leadAll [f] = lead f := by cases hl : lead f <;> simp [leadAll, hl, Lead.orElse]
  have hleads : leadAll (f :: fs) = (lead f).orElse (leadAll fs) := rfl
  rw [hleads] at ha ⊢
  have hrun : l.run pretty spell a q row (f :: fs) =
      (l.run pretty spell a q row [f]).run pretty spell a q row fs := run_append [f] fs
  rw [hrun]
  obtain ⟨hmid, hanchor⟩ := hf row l h (by rw [hlead]; cases hl : lead f <;> simp_all [Lead.orElse])
  rw [hlead] at hanchor
  cases hl : lead f with
  | nothing =>
    obtain ⟨hend, hanchor'⟩ := hfs row _ hmid (by
      rcases ha with ha | ha
      · exact .inl (hanchor (.inl ha))
      · exact .inr (by simpa [hl, Lead.orElse] using ha))
    refine ⟨hend, fun hc => hanchor' ?_⟩
    rcases hc with hc | hc
    · exact .inl (hanchor (.inl hc))
    · exact .inr (by simpa [hl, Lead.orElse] using hc)
  | content =>
    have hmid' := hanchor (.inr hl)
    obtain ⟨hend, hanchor'⟩ := hfs row _ hmid (.inl hmid')
    exact ⟨hend, fun _ => hanchor' (.inl hmid')⟩
  | indented =>
    have hstart : l.Anchored pretty := ha.resolve_right (by simp [hl, Lead.orElse])
    have hmid' := hanchor (.inl hstart)
    obtain ⟨hend, hanchor'⟩ := hfs row _ hmid (.inl hmid')
    exact ⟨hend, fun _ => hanchor' (.inl hmid')⟩

theorem faithful_text {s : String} (hs : s ≠ " ") : Faithful pretty spell a q [.text s] := by
  intro row l h _
  have hrun : l.run pretty spell a q row [.text s] = l.both (·.token s) := rfl
  rw [hrun]
  refine ⟨h.token hs, fun hc => Anchored.token (hc.imp_right fun hlead hempty => ?_)⟩
  simp [hempty, leadAll, lead, Lead.orElse] at hlead

theorem faithful_delimiter {s : String} (hs : s ≠ " ") (kind : DelimiterKind) :
    Faithful pretty spell a q [.delimiter s kind] := by
  intro row l h _
  have hrun : l.run pretty spell a q row [.delimiter s kind] =
      l.both (·.delimiter pretty s kind) := rfl
  rw [hrun]
  have htoken : l.Anchored pretty ∨ leadAll [.delimiter s kind] = .content →
      (l.both (·.token s)).Anchored pretty := fun hc =>
    Anchored.token (hc.imp_right fun hlead hempty => by
      simp [hempty, leadAll, lead, Lead.orElse] at hlead)
  by_cases hbreak : (pretty && kind.breaksLine) = true
  · have heq : l.both (·.delimiter pretty s kind) = (l.both (·.token s)).both (·.newline) := by
      simp [both, Page.delimiter, hbreak]
    rw [heq]
    exact ⟨(h.token hs).newline, fun hc => Anchored.newline (h.token hs) (htoken hc)⟩
  · have heq : l.both (·.delimiter pretty s kind) = l.both (·.token s) := by
      simp [both, Page.delimiter, hbreak]
    rw [heq]
    exact ⟨h.token hs, htoken⟩

theorem Faithful.group {children : List Fragment} (hc : Faithful pretty spell a q children)
    (indented : Bool) : Faithful pretty spell a q [.group indented children] := by
  intro row l h ha
  cases indented with
  | false =>
    have hrun : l.run pretty spell a q row [.group false children] =
        l.run pretty spell a q row children := by
      simp [run, walkAll, walk, condenseAll, condense]
    have hlead : leadAll [.group false children] = leadAll children := by
      cases hl : leadAll children <;> simp [leadAll, lead, hl, Lead.orElse]
    rw [hlead] at ha ⊢
    rw [hrun]
    exact hc row l h ha
  | true =>
    have hrun : l.run pretty spell a q row [.group true children] =
        ((l.both (·.enter pretty)).run pretty spell a q row children).both (·.exit pretty) := by
      simp [run, both, walkAll, walk, condenseAll, condense, Step.actAll_append, Step.act]
    have hstart : l.Anchored pretty := ha.resolve_right (by simp [leadAll, lead, Lead.orElse])
    obtain ⟨hinner, hanchor⟩ := hc row _ h.enter (.inl (hstart.enter h))
    have hend := hanchor (.inl (hstart.enter h))
    rw [hrun]
    exact ⟨hinner.exit hend, fun _ => hend.exit hinner⟩

/-- A fragment that writes one supplied text after a gap. -/
theorem faithful_supply {f : Fragment} {glued : Bool} {step : Option RowAt → Step}
    (hsupplies : ∀ row, (step row).supplies = true)
    (hwalk : ∀ row, walk a q row f = [.gap, step row, .settle glued])
    (hcondense : ∀ p, condense pretty p f = (p.gap.collected ++ [f], p.gap.cleared.settle glued)) :
    Faithful pretty spell a q [f] := by
  intro row l h _
  refine ⟨?_, fun _ => anchored_of_not_lineStart ?_⟩
  · have hlevel := h.gap.level.act (hsupplies row) pretty spell
    rw [filled_of_nil rfl] at hlevel
    have hgap := h.gap_filling
    simp only [Layout.flush, both, filled] at hgap
    have hrun : l.run pretty spell a q row [f] =
        ⟨(Step.act pretty spell l.direct.gap (step row)).settle glued,
          l.held.gap.cleared.settle glued,
          (Step.act pretty spell (l.filling.token l.held.gap.text) (step row)).settle glued⟩ := by
      simp [run, walkAll, hwalk, condenseAll, hcondense, Step.actAll_append, actAll_collected,
        Step.act, hgap]
    rw [hrun]
    exact hlevel.settle glued
  · simp [run, walkAll, hwalk, Step.act]

theorem faithful_hole (h : Hole) : Faithful pretty spell a q [.hole h] :=
  faithful_supply (fun _ => h.supplies_step a q) (fun _ => rfl) (fun _ => rfl)

theorem faithful_cell (index : Nat) : Faithful pretty spell a q [.cell index] :=
  faithful_supply (fun row => RowAt.supplies_step row index) (fun _ => rfl) (fun _ => rfl)

/-- A branch that does not begin with an indented group can be condensed by
itself. -/
theorem Faithful.level {fs : List Fragment} (hf : Faithful pretty spell a q fs)
    (hlead : pretty = true → leadAll fs ≠ .indented) (row : Option RowAt) (h : l.InStep) :
    Level l.held.indent (Step.actAll pretty spell l.direct (walkAll a q row fs))
      (Step.actAll pretty spell l.filling (walkAll a q row (condensedFrom pretty l.held fs))) := by
  have ha : l.Anchored pretty ∨ leadAll fs ≠ .indented := by
    cases pretty with
    | false => exact .inl fun hp => absurd hp (by simp)
    | true => exact .inr (hlead rfl)
  have hlevel := (hf row l h ha).1.level
  rw [filled_run] at hlevel
  simpa [run, condenseAll_indent] using hlevel

theorem faithful_choice {key : Key} {main alternative : List Fragment}
    (hmain : Faithful pretty spell a q main) (halternative : Faithful pretty spell a q alternative)
    (hlead : pretty = true → leadAll main ≠ .indented)
    (hlead' : pretty = true → leadAll alternative ≠ .indented) :
    Faithful pretty spell a q [.choice key main alternative] := by
  intro row l h _
  refine ⟨?_, fun _ => anchored_of_not_lineStart ?_⟩
  · have hrun (branch : List Fragment)
        (hdirect : walk a q row (.choice key main alternative) =
          walkAll a q row branch ++ [.settle false])
        (hfilling : walk a q row (.choice key (condensedFrom pretty l.held.cleared main)
            (condensedFrom pretty l.held.cleared alternative)) =
          walkAll a q row (condensedFrom pretty l.held.cleared branch) ++ [.settle false]) :
        l.run pretty spell a q row [.choice key main alternative] =
          ⟨(Step.actAll pretty spell l.direct (walkAll a q row branch)).settle false,
            l.held.cleared.settle false,
            (Step.actAll pretty spell l.filled
              (walkAll a q row (condensedFrom pretty l.held.cleared branch))).settle false⟩ := by
      simp [run, walkAll, condenseAll, condense_choice, hdirect, hfilling, Step.actAll_append,
        actAll_collected, Step.act, filled]
    cases hkey : a.alternative key with
    | false =>
      rw [hrun main (by simp [walk, hkey]) (by simp [walk, hkey])]
      exact (hmain.level hlead row h.flush).settle false
    | true =>
      rw [hrun alternative (by simp [walk, hkey]) (by simp [walk, hkey])]
      exact (halternative.level hlead' row h.flush).settle false
  · simp [run, walkAll, walk, Step.actAll_append, Step.act]

/-- Each row of a repetition starts over, so rows can be condensed alike. -/
theorem Faithful.rows {body empty : List Fragment} {held direct filling : Page}
    (hbody : Faithful pretty spell a q body) (hempty : Faithful pretty spell a q empty)
    (hlead : pretty = true → leadAll body ≠ .indented)
    (hlead' : pretty = true → leadAll empty ≠ .indented) (row : Option RowAt) (key : Key)
    (between : String) (h : Level held.indent direct filling) :
    Level held.indent
      (Step.actAll pretty spell direct (repeated a q row key body empty between))
      (Step.actAll pretty spell filling (repeated a q row key
        (condensedFrom pretty held.cleared.fresh body)
        (condensedFrom pretty held.cleared.fresh empty) between)) := by
  have once {fs : List Fragment} (hf : Faithful pretty spell a q fs)
      (hl : pretty = true → leadAll fs ≠ .indented) (row : Option RowAt) {direct filling : Page}
      (h : Level held.indent direct filling) :
      Level held.indent (Step.actAll pretty spell direct (.fresh :: walkAll a q row fs))
        (Step.actAll pretty spell filling
          (.fresh :: walkAll a q row (condensedFrom pretty held.cleared.fresh fs))) :=
    hf.level hl row h.fresh
  let S (steps steps' : List Step) : Prop := ∀ direct filling,
    Level held.indent direct filling →
      Level held.indent (Step.actAll pretty spell direct steps)
        (Step.actAll pretty spell filling steps')
  have key : S (repeated a q row key body empty between) (repeated a q row key
      (condensedFrom pretty held.cleared.fresh body)
      (condensedFrom pretty held.cleared.fresh empty) between) := by
    apply repeated_rel
    · intro x x' y y' hx hy direct filling h
      rw [Step.actAll_append, Step.actAll_append]
      exact hy _ _ (hx _ _ h)
    · intro direct filling h
      exact h.write between
    · intro index cells _ direct filling h
      exact once hbody hlead _ h
    · intro direct filling h
      exact once hempty hlead' row h
  exact key direct filling h

theorem faithful_each {key : Key} {body empty : List Fragment}
    (hbody : Faithful pretty spell a q body) (hempty : Faithful pretty spell a q empty)
    (hlead : pretty = true → leadAll body ≠ .indented)
    (hlead' : pretty = true → leadAll empty ≠ .indented) (between : String) :
    Faithful pretty spell a q [.each key body empty between] := by
  intro row l h _
  refine ⟨?_, fun _ => anchored_of_not_lineStart ?_⟩
  · have hgap := h.gap_filling
    simp only [Layout.flush, both, filled] at hgap
    have hlevel : Level l.held.gap.indent l.direct.gap (l.filling.token l.held.gap.text) :=
      h.gap.level
    have hrows := hbody.rows hempty hlead hlead' row key between hlevel
    have hrun : l.run pretty spell a q row [.each key body empty between] =
        ⟨(Step.actAll pretty spell l.direct.gap (repeated a q row key body empty between)).settle
            false,
          l.held.gap.cleared.settle false,
          (Step.actAll pretty spell (l.filling.token l.held.gap.text) (repeated a q row key
            (condensedFrom pretty l.held.gap.cleared.fresh body)
            (condensedFrom pretty l.held.gap.cleared.fresh empty) between)).settle false⟩ := by
      simp [run, walkAll, walk_each, condenseAll, condense_each, Step.actAll_append,
        actAll_collected, Step.act, hgap]
    rw [hrun]
    exact hrows.settle false
  · simp [run, walkAll, walk_each, Step.actAll_append, Step.act]

/-- Condensing lays well-spaced fragments out as an execution does. -/
theorem faithful {fs : List Fragment} (h : WellSpaced pretty fs) :
    Faithful pretty spell a q fs := by
  induction fs using listInduction with
  | nil => exact fun _ _ h _ => ⟨h, fun hc => hc.resolve_right (by simp [leadAll])⟩
  | text s fs ih =>
    exact (faithful_text fun hs => h.token_ne (by simp [token?, hs])).cons (ih h.tail)
  | delimiter s kind fs ih =>
    exact (faithful_delimiter (fun hs => h.token_ne (by simp [token?, hs])) kind).cons (ih h.tail)
  | group indented children fs inner ih =>
    exact ((inner h.children).group indented).cons (ih h.tail)
  | hole hole fs ih => exact (faithful_hole hole).cons (ih h.tail)
  | choice key main alternative fs main' alternative' ih =>
    refine (faithful_choice (main' (h.branch ?_)) (alternative' (h.branch ?_))
      (h.leadAll_branch ?_) (h.leadAll_branch ?_)).cons (ih h.tail) <;> simp [branches]
  | each key body empty between fs body' empty' ih =>
    refine (faithful_each (body' (h.branch ?_)) (empty' (h.branch ?_)) (h.leadAll_branch ?_)
      (h.leadAll_branch ?_) between).cons (ih h.tail) <;> simp [branches]
  | cell index fs ih => exact (faithful_cell index).cons (ih h.tail)

end Layout

namespace Fragment

variable {a : Arguments} {q : QuoteMark}

theorem demands_collected (row : Option RowAt) (p : Page) :
    Step.demands (walkAll a q row p.collected) = [] := by
  unfold Page.collected
  split <;> rfl

/-- Condensing keeps what an execution is asked for, well spaced or not. -/
theorem demands_condenseAll (pretty : Bool) (p : Page) (row : Option RowAt) (fs : List Fragment) :
    Step.demands (walkAll a q row (condenseAll pretty p fs).1) =
      Step.demands (walkAll a q row fs) := by
  induction fs using listInduction generalizing p row with
  | nil => rfl
  | text s fs ih =>
    simp only [condenseAll, condense, walkAll, List.nil_append, ih]
    rfl
  | delimiter s kind fs ih =>
    simp only [condenseAll, condense, walkAll, List.nil_append, ih]
    rfl
  | group indented children fs inner ih =>
    cases indented with
    | false =>
      simp only [condenseAll, condense, walkAll, walk, walkAll_append, Step.demands_append, ih,
        inner]
    | true =>
      simp only [condenseAll, condense, walkAll, walk, walkAll_append, Step.demands_append, ih,
        inner]
      simp [Step.demands_cons, Step.asks, Step.marker?, Step.missing?]
  | hole h fs ih =>
    simp only [condenseAll, condense, walkAll, walkAll_append, Step.demands_append, ih,
      demands_collected, List.nil_append, List.append_nil]
  | choice key main alternative fs main' alternative' ih =>
    simp only [condenseAll, condense_choice, walkAll, walk, walkAll_append, Step.demands_append, ih,
      demands_collected, List.nil_append, List.append_nil, condensedFrom]
    split <;> simp only [Step.demands_append, main', alternative', demands_collected,
      List.append_nil]
  | each key body empty between fs body' empty' ih =>
    have hrow (row : Option RowAt) (fs : List Fragment)
        (h : ∀ p row, Step.demands (walkAll a q row (condenseAll pretty p fs).1) =
          Step.demands (walkAll a q row fs)) :
        Step.demands (.fresh :: walkAll a q row (condensedFrom pretty p.gap.cleared.fresh fs)) =
          Step.demands (.fresh :: walkAll a q row fs) := by
      simp only [Step.demands_cons, condensedFrom, walkAll_append, Step.demands_append, h,
        demands_collected, List.append_nil]
    have hrows : Step.demands (repeated a q row key
          (condensedFrom pretty p.gap.cleared.fresh body)
          (condensedFrom pretty p.gap.cleared.fresh empty) between) =
        Step.demands (repeated a q row key body empty between) := by
      refine repeated_rel (S := fun x y => Step.demands x = Step.demands y) ?_ rfl ?_ ?_
      · intro x x' y y' hx hy
        rw [Step.demands_append, Step.demands_append, hx, hy]
      · intro index cells _
        exact hrow _ body body'
      · exact hrow row empty empty'
    simp only [condenseAll, condense_each, walkAll, walk_each, walkAll_append, List.cons_append,
      Step.demands_append, Step.demands_cons, ih, demands_collected, hrows, List.nil_append,
      List.append_nil]
    rfl
  | cell index fs ih =>
    simp only [condenseAll, condense, walkAll, walkAll_append, Step.demands_append, ih,
      demands_collected, List.nil_append, List.append_nil]

end Fragment

namespace Template

variable {t : Template}

/-- The open fragments of a condensed template ask for the same things. -/
theorem demands_condense (t : Template) (a : Arguments) :
    Step.demands (t.condense.steps a) = Step.demands (t.steps a) := by
  unfold condense
  split
  · rfl
  · simp [steps, Fragment.condensed, Fragment.demands_condenseAll, Fragment.demands_collected]

@[simp] theorem format_condense (t : Template) : t.condense.format = t.format := by
  unfold condense
  split <;> rfl

theorem markers_condense (t : Template) (a : Arguments) :
    Step.markers (t.condense.steps a) = Step.markers (t.steps a) := by
  rw [← Step.markers_demands, demands_condense, Step.markers_demands]

theorem bound_condense (t : Template) (a : Arguments) : t.condense.bound a = t.bound a := by
  simp [bound, markers_condense]

theorem missing_condense (t : Template) (a : Arguments) :
    (t.condense.steps a).findSome? Step.missing? = (t.steps a).findSome? Step.missing? := by
  rw [← Step.findSome?_demands, demands_condense, Step.findSome?_demands]

/-- A well-spaced template and its condensed form show the same text. -/
theorem textWith_condense (h : Fragment.WellSpaced t.format.pretty t.fragments) (a : Arguments)
    (ordinal : Nat → Nat) : t.condense.textWith a ordinal = t.textWith a ordinal := by
  simp only [textWith, bound_condense, format_condense]
  generalize Marker.spell t.format.markers ((t.bound a).map Marker.slot) ordinal = spell
  obtain ⟨fragments, format, condensed⟩ := t
  cases condensed with
  | true => rfl
  | false =>
    have hf : Layout.Faithful format.pretty spell a format.quote fragments := Layout.faithful h
    have hrun := (hf none ⟨{}, {}, {}⟩ Layout.inStep_start (.inl Layout.anchored_start)).1.ink
    rw [Layout.filled_run] at hrun
    exact congrArg (fun ink => String.ofList ink.reverse) hrun.symm

/-- Filling a well-spaced template needs no spacing that condensing has not
settled, whatever sink the values go to. -/
theorem fillInto_condense (h : Fragment.WellSpaced t.format.pretty t.fragments) (a : Arguments)
    (sink : Sink) : t.condense.fillInto a sink = t.fillInto a sink := by
  simp only [fillInto, missing_condense, textWith_condense h, bound_condense]

/-- A well-spaced template and its condensed form give the same result for every
execution: the same text and values, or the same failure. -/
theorem fill_condense (fragments : List Fragment) (format : Format)
    (h : Fragment.WellSpaced format.pretty fragments) (a : Arguments) :
    (condense ⟨fragments, format, false⟩).fill a = fill ⟨fragments, format, false⟩ a := by
  have hinto : (condense ⟨fragments, format, false⟩).fillInto a (.list []) =
      fillInto ⟨fragments, format, false⟩ a (.list []) :=
    fillInto_condense h a (.list [])
  rw [fill, fill, hinto]

/-- A list of columns, the last of them a choice that ends in an indented group,
before a repetition in parentheses. -/
theorem fill_condense_columns :
    let fragments : List Fragment :=
      [.text "SELECT",
        .group true [.text "a", .delimiter "," .column,
          .choice "k" [.text "(", .group true [.text "b"], .text ")"] [.hole (.param ⟨0⟩ "p0")]],
        .delimiter "" .row, .text "WHERE a IN (", .each "ids" [.cell 0] [.text "NULL"] ", ",
        .text ")"]
    let a : Arguments := { rows := fun _ => [[.value (.bool true)], [.inline "7 "]] }
    Fragment.WellSpaced true fragments ∧
      (condense ⟨fragments, ⟨.dollar, .double, true⟩, false⟩).fill a =
        fill ⟨fragments, ⟨.dollar, .double, true⟩, false⟩ a := by
  intro fragments a
  have h : Fragment.WellSpaced true fragments := by decide
  exact ⟨h, fill_condense fragments ⟨.dollar, .double, true⟩ h a⟩

end Template

end PreparedSql
