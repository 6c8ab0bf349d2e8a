import PreparedSql.Proofs.Template.Markers

/-!
# What an execution reaches

An execution goes through a tree of fragments in order. Of a choice it enters one branch; a
repetition it enters once for each row of its collection, or its empty case when there are no
rows. `Fragment.reachedAll` lists the fragments that are met, each with the turns that led to it,
and says nothing about text.

The row of a cell is read off those turns: it is the row of the innermost body that was entered,
however many groups, branches and empty cases were entered inside it.

Main results: filling a template succeeds exactly if all that is reached is answered by the
arguments, and otherwise reports the first fragment that is not. The markers of the text are those
of the parameters and cells that are reached, whatever the style, and the values that are bound
are theirs.
-/

namespace PreparedSql

/-- How an execution gets from a fragment to those inside it. -/
inductive Turn where
  | group
  /-- Into one branch of a choice. -/
  | branch (key : Key) (alternative : Bool)
  /-- Into the body of a repetition, for one row. -/
  | body (row : RowAt)
  /-- Into the empty case of a repetition without rows. -/
  | empty (key : Key)
deriving DecidableEq, Repr

def Turn.row? : Turn → Option RowAt
  | .body row => some row
  | .group | .branch _ _ | .empty _ => none

/-- A fragment that is reached, and the turns that led to it, the latest first. -/
structure Visit where
  fragment : Fragment
  path : List Turn
deriving DecidableEq, Repr

namespace Visit

/-- The row of the innermost body around the fragment. -/
def row? (v : Visit) : Option RowAt := v.path.findSome? Turn.row?

/-- What the fragment asks of the arguments, as it is reported if they do not have it. A cell that
is in no body is reported without a collection. -/
def asks (v : Visit) : Option Missing :=
  match v.fragment with
  | .hole (.param _ name) => some (.param name)
  | .hole (.inline key) => some (.inline key)
  | .hole (.typeId t) => some (.type t.name)
  | .cell index =>
    match v.row? with
    | none => some (.cell "" index 0)
    | some row => some (.cell row.collection index row.cells.length)
  | _ => none

/-- Whether the arguments have what the fragment asks for. -/
def answered (a : Arguments) (v : Visit) : Bool :=
  match v.fragment with
  | .hole (.param p _) => (a.param p).isSome
  | .hole (.inline key) => (a.inline key).isSome
  | .hole (.typeId t) => (a.typeId t).isSome || t.interface
  | .cell index => v.row?.any (index < ·.cells.length)
  | _ => true

/-- What is missing at the fragment, if anything is. -/
def lack? (a : Arguments) (v : Visit) : Option Missing := if v.answered a then none else v.asks

/-- The marker that stands at the fragment. A parameter has one, with the value that it is bound
to. A cell has one if a value is bound in its row at its place: texts are written as they are. -/
def marker? (a : Arguments) (v : Visit) : Option Marker :=
  match v.fragment with
  | .hole (.param p name) => (a.param p).map fun value => ⟨.param p, name, value⟩
  | .cell index =>
    v.row?.bind fun row =>
      match row.cells[index]? with
      | some (.value value) =>
        some ⟨.cell row.collection row.index index, row.markerName index, value⟩
      | some (.inline _) | none => none
  | _ => none

end Visit

namespace Fragment

mutual

/-- A fragment and what an execution reaches inside it. -/
def reached (a : Arguments) (path : List Turn) : Fragment → List Visit
  | .group indented children =>
    ⟨.group indented children, path⟩ :: reachedAll a (.group :: path) children
  | .choice key main alternative =>
    ⟨.choice key main alternative, path⟩ ::
      if a.alternative key then reachedAll a (.branch key true :: path) alternative
      else reachedAll a (.branch key false :: path) main
  | .each key body empty between =>
    ⟨.each key body empty between, path⟩ ::
      if (a.rows key).isEmpty then reachedAll a (.empty key :: path) empty
      else ((a.rows key).mapIdx fun index cells =>
        reachedAll a (.body ⟨key, index, cells⟩ :: path) body).flatten
  | f => [⟨f, path⟩]

/-- What an execution reaches in fragments, in order. -/
def reachedAll (a : Arguments) (path : List Turn) : List Fragment → List Visit
  | [] => []
  | f :: fs => reached a path f ++ reachedAll a path fs

end

end Fragment

/-- What an execution of a template reaches. -/
def Template.reached (t : Template) (a : Arguments) : List Visit :=
  Fragment.reachedAll a [] t.fragments

namespace Visit

variable {a : Arguments} {q : QuoteMark}

/-- Only a fragment that asks for something can be without an answer. -/
theorem lack?_eq_none_iff {v : Visit} : v.lack? a = none ↔ v.answered a = true := by
  obtain ⟨f, path⟩ := v
  cases hanswered : answered a ⟨f, path⟩ with
  | true => simp [lack?, hanswered]
  | false =>
    simp only [lack?, hanswered, Bool.false_eq_true, if_false, iff_false]
    cases f with
    | hole h => cases h <;> simp_all [asks, answered]
    | cell index =>
      simp only [asks]
      split <;> simp
    | _ => simp [answered] at hanswered

theorem lack?_eq_some_iff {v : Visit} {what : Missing} :
    v.lack? a = some what ↔ v.answered a = false ∧ v.asks = some what := by
  cases hanswered : v.answered a <;> simp [lack?, hanswered]

/-- Nothing is lacking exactly if everything is answered. -/
theorem findSome?_lack?_eq_none_iff {visits : List Visit} :
    visits.findSome? (·.lack? a) = none ↔ ∀ v ∈ visits, v.answered a = true := by
  simp only [List.findSome?_eq_none_iff, lack?_eq_none_iff]

/-- What is lacking first is what the first fragment without an answer asks for. -/
theorem findSome?_lack?_eq_some_iff {visits : List Visit} {what : Missing} :
    visits.findSome? (·.lack? a) = some what ↔
      ∃ before v after, visits = before ++ v :: after ∧ (∀ u ∈ before, u.answered a = true) ∧
        v.answered a = false ∧ v.asks = some what := by
  simp only [List.findSome?_eq_some_iff, lack?_eq_none_iff, lack?_eq_some_iff]
  constructor
  · rintro ⟨before, v, after, hvisits, ⟨hanswered, hasks⟩, hbefore⟩
    exact ⟨before, v, after, hvisits, hbefore, hanswered, hasks⟩
  · rintro ⟨before, v, after, hvisits, hbefore, hanswered, hasks⟩
    exact ⟨before, v, after, hvisits, ⟨hanswered, hasks⟩, hbefore⟩

/-- A hole lacks what its step finds missing. -/
theorem missing?_hole (h : Hole) (path : List Turn) :
    (h.step a q).missing? = lack? a ⟨.hole h, path⟩ := by
  cases h with
  | param p name =>
    cases hp : a.param p <;> simp [Hole.step, hp, lack?, answered, asks, Step.missing?]
  | inline key =>
    cases hi : a.inline key <;> simp [Hole.step, hi, lack?, answered, asks, Step.missing?]
  | schema s => rfl
  | catalog c => rfl
  | typeId t =>
    cases ht : a.typeId t with
    | some number => simp [Hole.step, ht, lack?, answered, Step.missing?]
    | none =>
      cases hi : t.interface <;>
        simp [Hole.step, ht, hi, lack?, answered, asks, Step.missing?]

/-- A cell lacks what its step finds missing at the innermost row. -/
theorem missing?_cell (index : Nat) (path : List Turn) :
    (RowAt.step (path.findSome? Turn.row?) index).missing? = lack? a ⟨.cell index, path⟩ := by
  cases hrow : path.findSome? Turn.row? with
  | none => simp [RowAt.step, lack?, answered, asks, row?, hrow, Step.missing?]
  | some row =>
    by_cases hindex : index < row.cells.length
    · cases hcell : row.cells[index] <;>
        simp [RowAt.step, lack?, answered, row?, hrow, hindex, hcell, Step.missing?]
    · simp [RowAt.step, lack?, answered, asks, row?, hrow, hindex, Step.missing?]

/-- The marker of a hole is that of its step. -/
theorem marker?_hole (h : Hole) (path : List Turn) :
    (h.step a q).marker? = marker? a ⟨.hole h, path⟩ := by
  cases h with
  | param p name => cases hp : a.param p <;> simp [Hole.step, hp, marker?, Step.marker?]
  | inline key => cases hi : a.inline key <;> simp [Hole.step, hi, marker?, Step.marker?]
  | schema s => rfl
  | catalog c => rfl
  | typeId t =>
    cases ht : a.typeId t with
    | some number => simp [Hole.step, ht, marker?, Step.marker?]
    | none => cases hi : t.interface <;> simp [Hole.step, ht, hi, marker?, Step.marker?]

/-- The marker of a cell is that of its step at the innermost row. -/
theorem marker?_cell (index : Nat) (path : List Turn) :
    (RowAt.step (path.findSome? Turn.row?) index).marker? = marker? a ⟨.cell index, path⟩ := by
  cases hrow : path.findSome? Turn.row? with
  | none => simp [RowAt.step, marker?, row?, hrow, Step.marker?]
  | some row =>
    simp only [RowAt.step, marker?, row?, hrow, Option.bind_some]
    split <;> simp [Step.marker?, *]

end Visit

/-- Lists with others between them that hold nothing of interest. -/
theorem filterMap_intercalate {α β : Type} {f : α → Option β} {separator : List α}
    (hsep : separator.filterMap f = []) (parts : List (List α)) :
    (List.intercalate separator parts).filterMap f = parts.flatten.filterMap f := by
  induction parts with
  | nil => rfl
  | cons part parts ih =>
    cases parts with
    | nil => simp
    | cons next parts =>
      rw [List.intercalate_cons_cons, List.flatten_cons, List.filterMap_append,
        List.filterMap_append, List.filterMap_append, hsep, ih, List.append_nil]

/-- Lists that agree part by part agree. -/
theorem filterMap_flatten_mapIdx {α β γ δ : Type} {f : β → Option δ} {g : γ → Option δ}
    {rows : List α} {left : Nat → α → List β} {right : Nat → α → List γ}
    (h : ∀ index row, (left index row).filterMap f = (right index row).filterMap g) :
    (rows.mapIdx left).flatten.filterMap f = (rows.mapIdx right).flatten.filterMap g := by
  induction rows generalizing left right with
  | nil => rfl
  | cons row rows ih =>
    simp only [List.mapIdx_cons, List.flatten_cons, List.filterMap_append, h 0 row]
    rw [ih fun index => h (index + 1)]

/-- What is looked for in the steps of an execution is seen in what it reaches: at its holes and
cells, and nowhere else. -/
structure Sees {β : Type} (a : Arguments) (q : QuoteMark) (look : Step → Option β)
    (see : Visit → Option β) : Prop where
  layout : ∀ step, step.asks = false → look step = none
  quiet : ∀ v, v.asks = none → see v = none
  hole : ∀ h path, look (h.step a q) = see ⟨.hole h, path⟩
  cell : ∀ index path, look (RowAt.step (path.findSome? Turn.row?) index) = see ⟨.cell index, path⟩

namespace Sees

variable {β : Type} {a : Arguments} {q : QuoteMark} {look : Step → Option β}
  {see : Visit → Option β}

theorem filterMap_cons_layout (h : Sees a q look see) {step : Step} (hstep : step.asks = false)
    (steps : List Step) : (step :: steps).filterMap look = steps.filterMap look :=
  List.filterMap_cons_none (h.layout step hstep)

theorem filterMap_append_layout (h : Sees a q look see) {step : Step} (hstep : step.asks = false)
    (steps : List Step) : (steps ++ [step]).filterMap look = steps.filterMap look := by
  rw [List.filterMap_append, h.filterMap_cons_layout hstep, List.filterMap_nil, List.append_nil]

theorem filterMap_cons_quiet (h : Sees a q look see) {v : Visit} (hv : v.asks = none)
    (visits : List Visit) : (v :: visits).filterMap see = visits.filterMap see :=
  List.filterMap_cons_none (h.quiet v hv)

/-- Supplied text stands between steps of layout. -/
theorem filterMap_supplied (h : Sees a q look see) {step : Step} {v : Visit} {glued : Bool}
    (hstep : look step = see v) :
    [Step.gap, step, .settle glued].filterMap look = [v].filterMap see := by
  have hgap : [Step.gap, step, .settle glued].filterMap look =
      ([step] ++ [Step.settle glued]).filterMap look := h.filterMap_cons_layout rfl _
  rw [hgap, h.filterMap_append_layout rfl, List.filterMap_cons, hstep]
  rfl

/-- What a walk at the innermost row meets is what is seen in what is reached. -/
theorem filterMap_walkAll (h : Sees a q look see) (path : List Turn) (fs : List Fragment) :
    (Fragment.walkAll a q (path.findSome? Turn.row?) fs).filterMap look =
      (Fragment.reachedAll a path fs).filterMap see := by
  have cons {path : List Turn} {f : Fragment} {fs : List Fragment}
      (first : (Fragment.walk a q (path.findSome? Turn.row?) f).filterMap look =
        (Fragment.reached a path f).filterMap see)
      (rest : (Fragment.walkAll a q (path.findSome? Turn.row?) fs).filterMap look =
        (Fragment.reachedAll a path fs).filterMap see) :
      (Fragment.walkAll a q (path.findSome? Turn.row?) (f :: fs)).filterMap look =
        (Fragment.reachedAll a path (f :: fs)).filterMap see := by
    rw [Fragment.walkAll, Fragment.reachedAll, List.filterMap_append, List.filterMap_append, first,
      rest]
  -- Turns that are not into a body keep the row, so the hypothesis for the path with such a turn
  -- in front speaks about the walk at the same row.
  induction fs using Fragment.listInduction generalizing path with
  | nil => rfl
  | text s fs ih =>
    refine cons ?_ (ih path)
    exact (h.filterMap_cons_layout rfl []).trans (h.filterMap_cons_quiet rfl []).symm
  | delimiter s kind fs ih =>
    refine cons ?_ (ih path)
    exact (h.filterMap_cons_layout rfl []).trans (h.filterMap_cons_quiet rfl []).symm
  | group indented children fs inner ih =>
    have hinner := inner (.group :: path)
    refine cons ?_ (ih path)
    rw [Fragment.reached, h.filterMap_cons_quiet rfl, ← hinner]
    cases indented with
    | false => rfl
    | true =>
      rw [Fragment.walk, h.filterMap_append_layout rfl, h.filterMap_cons_layout rfl]
      rfl
  | hole hole fs ih =>
    refine cons ?_ (ih path)
    exact h.filterMap_supplied (h.hole hole path)
  | choice key main alternative fs first second ih =>
    have hfirst := first (.branch key false :: path)
    have hsecond := second (.branch key true :: path)
    refine cons ?_ (ih path)
    rw [Fragment.walk, Fragment.reached, h.filterMap_append_layout rfl, h.filterMap_cons_quiet rfl]
    cases hkey : a.alternative key with
    | false => exact hfirst
    | true => exact hsecond
  | each key body empty between fs first second ih =>
    have hempty := second (.empty key :: path)
    refine cons ?_ (ih path)
    rw [Fragment.walk_each, Fragment.reached, h.filterMap_append_layout rfl,
      h.filterMap_cons_layout rfl, h.filterMap_cons_quiet rfl, Fragment.repeated]
    cases a.rows key with
    | nil =>
      rw [List.isEmpty_nil, if_pos rfl, ← hempty]
      exact h.filterMap_cons_layout rfl _
    | cons row rows =>
      have hsep : [Step.write between].filterMap look = [] := h.filterMap_cons_layout rfl []
      rw [List.isEmpty_cons, if_neg Bool.false_ne_true]
      refine (filterMap_intercalate hsep _).trans (filterMap_flatten_mapIdx fun index cells => ?_)
      have hbody := first (.body ⟨key, index, cells⟩ :: path)
      exact (h.filterMap_cons_layout rfl _).trans hbody
  | cell index fs ih =>
    refine cons ?_ (ih path)
    exact h.filterMap_supplied (h.cell index path)

/-- What is met first is what is seen first. -/
theorem findSome?_walkAll (h : Sees a q look see) (path : List Turn) (fs : List Fragment) :
    (Fragment.walkAll a q (path.findSome? Turn.row?) fs).findSome? look =
      (Fragment.reachedAll a path fs).findSome? see := by
  have hall := congrArg List.head? (h.filterMap_walkAll path fs)
  rwa [List.head?_filterMap, List.head?_filterMap] at hall

end Sees

/-- What is missing is what is lacking. -/
theorem sees_lack? (a : Arguments) (q : QuoteMark) : Sees a q Step.missing? (·.lack? a) where
  layout step hstep := by simp_all [Step.asks]
  quiet v hv := by simp [Visit.lack?, hv]
  hole h path := Visit.missing?_hole h path
  cell index path := Visit.missing?_cell index path

/-- Markers stand where parameters and values of rows are reached. -/
theorem sees_marker? (a : Arguments) (q : QuoteMark) : Sees a q Step.marker? (·.marker? a) where
  layout step hstep := by simp_all [Step.asks]
  quiet v hv := by
    obtain ⟨f, path⟩ := v
    cases f with
    | hole h => cases h <;> simp_all [Visit.asks, Visit.marker?]
    | cell index =>
      simp only [Visit.asks] at hv
      split at hv <;> cases hv
    | _ => rfl
  hole h path := Visit.marker?_hole h path
  cell index path := Visit.marker?_cell index path

namespace Template

/-- The first thing that an execution misses, found without laying anything out. -/
theorem findSome?_steps (t : Template) (a : Arguments) :
    (t.steps a).findSome? Step.missing? = (t.reached a).findSome? (·.lack? a) :=
  (sees_lack? a t.format.quote).findSome?_walkAll [] t.fragments

/-- The markers of an execution, found in the same way. -/
theorem filterMap_steps (t : Template) (a : Arguments) :
    (t.steps a).filterMap Step.marker? = (t.reached a).filterMap (·.marker? a) :=
  (sees_marker? a t.format.quote).filterMap_walkAll [] t.fragments

theorem exists_fill_eq_ok_iff (t : Template) (a : Arguments) :
    (∃ sql, t.fill a = .ok sql) ↔ (t.steps a).findSome? Step.missing? = none := by
  constructor
  · rintro ⟨sql, hfill⟩
    cases hmissing : (t.steps a).findSome? Step.missing? with
    | none => rfl
    | some what =>
      rw [fill_of_missing hmissing] at hfill
      cases hfill
  · exact fun hmissing => ⟨_, fill_of_complete hmissing⟩

theorem fill_eq_error_iff (t : Template) (a : Arguments) (failure : Failure) :
    t.fill a = .error failure ↔ ∃ what, (t.steps a).findSome? Step.missing? = some what ∧
      failure = ⟨.missing what, []⟩ := by
  constructor
  · intro hfill
    cases hmissing : (t.steps a).findSome? Step.missing? with
    | none =>
      rw [fill_of_complete hmissing] at hfill
      cases hfill
    | some what =>
      rw [fill_of_missing hmissing] at hfill
      cases hfill
      exact ⟨what, rfl, rfl⟩
  · rintro ⟨what, hmissing, rfl⟩
    exact fill_of_missing hmissing

/-- Filling a template succeeds exactly if everything that is reached is answered. Otherwise it
fails for what the first fragment without an answer asks for. -/
theorem fill_iff_answered (t : Template) (a : Arguments) :
    ((∃ sql, t.fill a = .ok sql) ↔ ∀ v ∈ t.reached a, v.answered a = true) ∧
      ∀ failure, t.fill a = .error failure ↔
        ∃ before v after what, t.reached a = before ++ v :: after ∧
          (∀ u ∈ before, u.answered a = true) ∧ v.answered a = false ∧ v.asks = some what ∧
            failure = ⟨.missing what, []⟩ := by
  refine ⟨?_, fun failure => ?_⟩
  · rw [exists_fill_eq_ok_iff, findSome?_steps, Visit.findSome?_lack?_eq_none_iff]
  · simp only [fill_eq_error_iff, findSome?_steps, Visit.findSome?_lack?_eq_some_iff]
    constructor
    · rintro ⟨what, ⟨before, v, after, hreached, hbefore, hanswered, hasks⟩, hfailure⟩
      exact ⟨before, v, after, what, hreached, hbefore, hanswered, hasks, hfailure⟩
    · rintro ⟨before, v, after, what, hreached, hbefore, hanswered, hasks, hfailure⟩
      exact ⟨what, ⟨before, v, after, hreached, hbefore, hanswered, hasks⟩, hfailure⟩

/-- The empty case of a repetition is in no row of its own: its cells are those of the row
around it. -/
example :
    let inner : Fragment := .each "inner" [.cell 4] [.group true [.cell 0, .cell 1]] ", "
    let a : Arguments := { rows := fun key => if key = "outer" then [[.inline "x"]] else [] }
    fill ⟨[.each "outer" [inner] [] ", "], ⟨.positional, .double, false⟩, false⟩ a =
      .error ⟨.missing (.cell "outer" 1 1), []⟩ := by
  rfl

/-! ## The styles of markers -/

/-- Filled in the positional and in the numbered styles, a template fails in the same way, or its
texts are the same but for the spelling of markers. The markers are those of the parameters and
cells that are reached, in order, each with the value that the arguments hold for it. The
positional style binds the value of every marker; the numbered styles share one list of values, to
which their ordinals lead. -/
theorem fill_styles (fragments : List Fragment) (quote : QuoteMark) (pretty condensed : Bool)
    (a : Arguments) :
    let t (style : MarkerStyle) : Template := ⟨fragments, ⟨style, quote, pretty⟩, condensed⟩
    (∃ failure, (t .positional).fill a = .error failure ∧ (t .dollar).fill a = .error failure ∧
        (t .question).fill a = .error failure) ∨
      ∃ (gs : List Glyph) (ordinal : Marker → Nat) (values : List Value),
        (t .positional).fill a =
            .ok ⟨Glyph.text (fun _ => "?") gs, (Glyph.markers gs).map Marker.value⟩ ∧
          (t .dollar).fill a =
            .ok ⟨Glyph.text (fun m => "$" ++ toString (ordinal m)) gs, values⟩ ∧
          (t .question).fill a =
            .ok ⟨Glyph.text (fun m => "?" ++ toString (ordinal m)) gs, values⟩ ∧
          Glyph.markers gs = ((t .positional).reached a).filterMap (·.marker? a) ∧
          (∀ m ∈ Glyph.markers gs, a.value? m.slot = some m.value) ∧
          Marker.Numbering (Glyph.markers gs) ordinal values := by
  intro t
  cases hmissing : ((t .positional).steps a).findSome? Step.missing? with
  | some what =>
    exact .inl ⟨_, fill_of_missing hmissing, fill_of_missing hmissing, fill_of_missing hmissing⟩
  | none =>
    obtain ⟨gs, hmarkers, hfill⟩ := exists_glyphs fragments quote pretty condensed hmissing
    have hvalue : ∀ m ∈ Glyph.markers gs, a.value? m.slot = some m.value := fun m hm =>
      value?_slot (t := t .positional) (hmarkers ▸ hm)
    refine .inr ⟨gs, _, _, ?_, ?_, ?_, ?_, hvalue, Marker.numbering_firsts hvalue⟩
    · exact hfill .positional fun _ _ => solid_question
    · exact hfill .dollar fun _ _ => (solid_numeral _).append _
    · exact hfill .question fun _ _ => (solid_numeral _).append _
    · exact hmarkers.trans ((t .positional).filterMap_steps a)

end Template

end PreparedSql
