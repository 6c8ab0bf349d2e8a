import PreparedSql.Proofs.Template.Reached

/-!
# What an execution depends on

An execution uses its arguments only at the fragments that it gets to, and there only what the
fragment mentions: which branch a choice takes, how many rows a collection has, what fills a hole,
and the one cell of a row that is asked for. It gets to the fragments that are reached up to the
first one that is not answered.

Two arguments that agree on this give the same result. Which fragments matter is itself decided by
the arguments, so the two walks are compared in step: as long as everything was answered, both have
taken the same steps, and what is met next has to agree again.
-/

namespace PreparedSql

/-- Whether another row has the same at a column. Where neither has the column, both must be of the
same length, since that is reported. -/
def RowAt.agreesAt (row : RowAt) (cells : List Cell) (column : Nat) : Bool :=
  decide (row.cells[column]? = cells[column]?) &&
    (decide (column < row.cells.length) || decide (row.cells.length = cells.length))

namespace Visit

/-- Whether two arguments supply the same for what the fragment mentions. The row of a cell is one
of the first arguments; the second have another row in its place. -/
def agrees (a b : Arguments) (v : Visit) : Bool :=
  match v.fragment with
  | .hole (.param p _) => decide (a.param p = b.param p)
  | .hole (.inline key) => decide (a.inline key = b.inline key)
  | .hole (.schema s) => decide (a.schema s.name = b.schema s.name)
  | .hole (.catalog c) => decide (a.catalog c.name = b.catalog c.name)
  | .hole (.typeId t) => decide (a.typeId t = b.typeId t)
  | .choice key _ _ => decide (a.alternative key = b.alternative key)
  | .each key _ _ _ => decide ((a.rows key).length = (b.rows key).length)
  | .cell index =>
    v.row?.all fun row => ((b.rows row.collection)[row.index]?).all (row.agreesAt · index)
  | .text _ | .delimiter _ _ | .group _ _ => true

/-- The fragments up to the first one that is not answered, which is the last to be met. -/
def met (a : Arguments) : List Visit → List Visit
  | [] => []
  | v :: vs => v :: if v.answered a then met a vs else []

end Visit

/-- The fragments that an execution of a template gets to. -/
def Template.met (t : Template) (a : Arguments) : List Visit := Visit.met a (t.reached a)

namespace Step

/-- The steps up to the first one that misses something. -/
def untilMissing : List Step → List Step
  | [] => []
  | step :: steps => step :: if step.missing?.isSome then [] else untilMissing steps

/-- What is missing first, and the markers before it, are found without the steps behind. -/
theorem findSome?_untilMissing (steps : List Step) :
    (untilMissing steps).findSome? missing? = steps.findSome? missing? := by
  induction steps with
  | nil => rfl
  | cons step steps ih => cases hstep : step.missing? <;> simp [untilMissing, hstep, ih]

theorem markers_untilMissing (steps : List Step) :
    markers (untilMissing steps) = markers steps := by
  induction steps with
  | nil => rfl
  | cons step steps ih =>
    cases hstep : step.missing? <;> simp [untilMissing, markers_cons, hstep, ih]

theorem untilMissing_of_complete {steps : List Step} (h : steps.findSome? missing? = none) :
    untilMissing steps = steps := by
  induction steps with
  | nil => rfl
  | cons step steps ih =>
    obtain ⟨hstep, hsteps⟩ : step.missing? = none ∧ steps.findSome? missing? = none := by
      simpa using h
    simp [untilMissing, hstep, ih hsteps]

theorem untilMissing_append (steps more : List Step) :
    untilMissing (steps ++ more) =
      if steps.findSome? missing? = none then steps ++ untilMissing more
      else untilMissing steps := by
  induction steps with
  | nil => rfl
  | cons step steps ih =>
    cases hstep : step.missing? with
    | none =>
      simp only [List.cons_append, untilMissing, hstep, ih, List.findSome?_cons, Option.isSome_none,
        Bool.false_eq_true, if_false]
      split <;> rfl
    | some what => simp [untilMissing, hstep]

/-- Nothing is missing on either side if nothing is on one, and then all steps are the same. -/
theorem eq_of_untilMissing_eq {steps steps' : List Step}
    (h : untilMissing steps = untilMissing steps') (hcomplete : steps.findSome? missing? = none) :
    steps = steps' := by
  have hcomplete' : steps'.findSome? missing? = none := by
    rw [← findSome?_untilMissing, ← h, findSome?_untilMissing, hcomplete]
  rw [← untilMissing_of_complete hcomplete, h, untilMissing_of_complete hcomplete']

end Step

/-- The two arguments agree on all fragments that are met. -/
def Visit.AgreeOn (a b : Arguments) (visits : List Visit) : Prop :=
  ∀ v ∈ Visit.met a visits, v.agrees a b = true

namespace Visit.AgreeOn

variable {a b : Arguments} {v : Visit} {visits more : List Visit}

theorem cons_iff : AgreeOn a b (v :: visits) ↔
    v.agrees a b = true ∧ (v.answered a = true → AgreeOn a b visits) := by
  cases hanswered : v.answered a <;> simp [AgreeOn, met, hanswered]

theorem append_iff : AgreeOn a b (visits ++ more) ↔
    AgreeOn a b visits ∧ ((∀ v ∈ visits, v.answered a = true) → AgreeOn a b more) := by
  induction visits with
  | nil => simp [AgreeOn, met]
  | cons v visits ih =>
    rw [List.cons_append, cons_iff, cons_iff, ih, List.forall_mem_cons]
    tauto

end Visit.AgreeOn

/-- The steps of two walks that go through the same fragments, of which the first one meets
`visits`: as far as the arguments agree on what is met, the steps are the same. -/
structure Tracks (a b : Arguments) (visits : List Visit) (steps steps' : List Step) : Prop where
  lack : steps.findSome? Step.missing? = visits.findSome? (·.lack? a)
  same : Visit.AgreeOn a b visits → Step.untilMissing steps = Step.untilMissing steps'

namespace Tracks

variable {a b : Arguments} {visits more : List Visit} {steps steps' rest rest' : List Step}

theorem append (h : Tracks a b visits steps steps') (h' : Tracks a b more rest rest') :
    Tracks a b (visits ++ more) (steps ++ rest) (steps' ++ rest') := by
  constructor
  · rw [List.findSome?_append, List.findSome?_append, h.lack, h'.lack]
  · intro hagree
    obtain ⟨hvisits, hmore⟩ := Visit.AgreeOn.append_iff.1 hagree
    have hsteps := h.same hvisits
    have hmissing : steps'.findSome? Step.missing? = steps.findSome? Step.missing? := by
      rw [← Step.findSome?_untilMissing, ← hsteps, Step.findSome?_untilMissing]
    rw [Step.untilMissing_append, Step.untilMissing_append, hmissing]
    split
    · next hcomplete =>
      -- All that was met is answered, so the agreement goes on behind it.
      have hanswered := Visit.findSome?_lack?_eq_none_iff.1 (h.lack ▸ hcomplete)
      rw [Step.eq_of_untilMissing_eq hsteps hcomplete, h'.same (hmore hanswered)]
    · exact hsteps

/-- A step of layout depends on nothing. -/
theorem layout {step : Step} (hstep : step.missing? = none) : Tracks a b [] [step] [step] :=
  ⟨by simp [hstep], fun _ => rfl⟩

theorem cons {step : Step} (hstep : step.missing? = none) (h : Tracks a b visits steps steps') :
    Tracks a b visits (step :: steps) (step :: steps') :=
  (layout hstep).append h

theorem concat {step : Step} (hstep : step.missing? = none) (h : Tracks a b visits steps steps') :
    Tracks a b visits (steps ++ [step]) (steps' ++ [step]) := by
  simpa using h.append (layout hstep)

/-- One fragment that takes the same step for both arguments if they agree on it. -/
theorem single {v : Visit} {step step' : Step} (hlack : step.missing? = v.lack? a)
    (hstep : v.agrees a b = true → step = step') : Tracks a b [v] [step] [step'] := by
  constructor
  · simp [hlack]
  · intro hagree
    rw [hstep (Visit.AgreeOn.cons_iff.1 hagree).1]

/-- A supplied text stands between two steps of layout. -/
theorem supply {v : Visit} {step step' : Step} (h : Tracks a b [v] [step] [step']) (glued : Bool) :
    Tracks a b [v] [.gap, step, .settle glued] [.gap, step', .settle glued] :=
  cons rfl (concat rfl h)

/-- Behind a fragment that is answered, what is reached next matters too. -/
theorem behind {v : Visit} (hanswered : v.answered a = true) (h : Tracks a b visits steps steps') :
    Tracks a b (v :: visits) steps steps' := by
  constructor
  · rw [List.findSome?_cons, Visit.lack?_eq_none_iff.2 hanswered]
    exact h.lack
  · intro hagree
    exact h.same ((Visit.AgreeOn.cons_iff.1 hagree).2 hanswered)

/-- Only arguments that agree on the fragment that is met first are to be compared. -/
theorem of_agrees {v : Visit}
    (hlack : steps.findSome? Step.missing? = (v :: visits).findSome? (·.lack? a))
    (h : v.agrees a b = true → Tracks a b (v :: visits) steps steps') :
    Tracks a b (v :: visits) steps steps' := by
  refine ⟨hlack, fun hagree => ?_⟩
  exact (h (Visit.AgreeOn.cons_iff.1 hagree).1).same hagree

/-- The rows of a collection, one after the other with the same text between. -/
theorem rows {between : String} {cells cells' : List (List Cell)}
    {visits : Nat → List Cell → List Visit} {steps steps' : Nat → List Cell → List Step}
    (hlength : cells.length = cells'.length)
    (h : ∀ index row row', cells[index]? = some row → cells'[index]? = some row' →
      Tracks a b (visits index row) (steps index row) (steps' index row')) :
    Tracks a b (cells.mapIdx visits).flatten
      (List.intercalate [.write between] (cells.mapIdx steps))
      (List.intercalate [.write between] (cells'.mapIdx steps')) := by
  induction cells generalizing cells' visits steps steps' with
  | nil =>
    obtain rfl := List.eq_nil_of_length_eq_zero hlength.symm
    exact ⟨rfl, fun _ => rfl⟩
  | cons row cells ih =>
    cases cells' with
    | nil => cases hlength
    | cons row' cells' =>
      have first := h 0 row row' rfl rfl
      have hrest := ih (Nat.succ.inj hlength) fun index next next' hnext hnext' =>
        h (index + 1) next next' hnext hnext'
      simp only [List.mapIdx_cons, List.flatten_cons]
      cases cells with
      | nil =>
        obtain rfl := List.eq_nil_of_length_eq_zero (Nat.succ.inj hlength).symm
        simpa using first
      | cons next cells =>
        obtain ⟨next', cells', rfl⟩ :=
          List.exists_cons_of_length_eq_add_one (Nat.succ.inj hlength).symm
        rw [List.intercalate_cons_of_ne_nil (by simp), List.intercalate_cons_of_ne_nil (by simp),
          List.append_assoc, List.append_assoc]
        exact first.append (cons rfl hrest)

end Tracks

/-- The row of the second arguments that stands in the place of one of the first. -/
inductive RowAt.Counterpart (b : Arguments) : Option RowAt → Option RowAt → Prop where
  | none : Counterpart b none none
  | some {key : Key} {index : Nat} {cells cells' : List Cell} :
      (b.rows key)[index]? = some cells' →
      Counterpart b (some ⟨key, index, cells⟩) (some ⟨key, index, cells'⟩)

/-- A cell takes the same step at rows that agree on its column. -/
theorem RowAt.Counterpart.step_eq {a b : Arguments} {path : List Turn} {row' : Option RowAt}
    (h : Counterpart b (path.findSome? Turn.row?) row') {index : Nat}
    (hagree : Visit.agrees a b ⟨.cell index, path⟩ = true) :
    RowAt.step (path.findSome? Turn.row?) index = RowAt.step row' index := by
  simp only [Visit.agrees, Visit.row?] at hagree
  generalize path.findSome? Turn.row? = row at h hagree
  cases h with
  | none => rfl
  | some hcells =>
    simp only [Option.all_some, hcells, agreesAt, Bool.and_eq_true, decide_eq_true_eq,
      Bool.or_eq_true] at hagree
    obtain ⟨hcell, hlength⟩ := hagree
    simp only [RowAt.step, hcell]
    split
    · next hnone =>
      rw [hnone] at hcell
      rw [hlength.resolve_left (Nat.not_lt.2 (List.getElem?_eq_none_iff.1 hcell))]
    · rfl
    · rfl

/-- A hole is filled alike by arguments that agree on it. -/
theorem Hole.step_eq {a b : Arguments} {q : QuoteMark} {h : Hole} {path : List Turn}
    (hagree : Visit.agrees a b ⟨.hole h, path⟩ = true) : h.step a q = h.step b q := by
  cases h <;> simp_all [Visit.agrees, Hole.step]

namespace Fragment

variable {a b : Arguments} {q : QuoteMark}

theorem findSome?_walk (path : List Turn) (f : Fragment) :
    (walk a q (path.findSome? Turn.row?) f).findSome? Step.missing? =
      (reached a path f).findSome? (·.lack? a) := by
  simpa [walkAll, reachedAll] using (sees_lack? a q).findSome?_walkAll path [f]

/-- Two walks at rows in the same place take the same steps as far as the arguments agree on what
the first one meets. -/
theorem tracks (path : List Turn) {row' : Option RowAt}
    (hrow : RowAt.Counterpart b (path.findSome? Turn.row?) row') (fs : List Fragment) :
    Tracks a b (reachedAll a path fs) (walkAll a q (path.findSome? Turn.row?) fs)
      (walkAll b q row' fs) := by
  induction fs using listInduction generalizing path row' with
  | nil => exact ⟨rfl, fun _ => rfl⟩
  | text s fs ih => exact (Tracks.single rfl fun _ => rfl).append (ih path hrow)
  | delimiter s kind fs ih => exact (Tracks.single rfl fun _ => rfl).append (ih path hrow)
  | group indented children fs inner ih =>
    have hinner : Tracks a b (reachedAll a (.group :: path) children)
        (walkAll a q (path.findSome? Turn.row?) children) (walkAll b q row' children) :=
      inner (.group :: path) hrow
    refine Tracks.append (Tracks.behind rfl ?_) (ih path hrow)
    cases indented with
    | false => exact hinner
    | true => exact hinner.concat rfl |>.cons rfl
  | hole h fs ih =>
    refine Tracks.append ?_ (ih path hrow)
    exact (Tracks.single (Visit.missing?_hole h path) Hole.step_eq).supply h.qualifies
  | choice key main alternative fs first second ih =>
    refine Tracks.append (Tracks.of_agrees (findSome?_walk path _) fun hagree => ?_) (ih path hrow)
    have hkey : a.alternative key = b.alternative key := by simpa [Visit.agrees] using hagree
    refine Tracks.behind rfl ?_
    simp only [walk, ← hkey]
    split
    · exact (second (.branch key true :: path) hrow).concat rfl
    · exact (first (.branch key false :: path) hrow).concat rfl
  | each key body empty between fs first second ih =>
    refine Tracks.append (Tracks.of_agrees (findSome?_walk path _) fun hagree => ?_) (ih path hrow)
    have hlength : (a.rows key).length = (b.rows key).length := by
      simpa [Visit.agrees] using hagree
    refine Tracks.behind rfl ?_
    rw [walk_each, walk_each]
    refine (Tracks.concat rfl ?_).cons rfl
    cases hrows : a.rows key with
    | nil =>
      have hrows' : b.rows key = [] := List.eq_nil_of_length_eq_zero (by rw [← hlength, hrows]; rfl)
      simp only [repeated, hrows, hrows', List.isEmpty_nil, if_true]
      exact (second (.empty key :: path) hrow).cons rfl
    | cons row rows =>
      obtain ⟨next, rows', hrows'⟩ : ∃ next rows', b.rows key = next :: rows' :=
        List.exists_cons_of_length_eq_add_one (by rw [← hlength, hrows]; rfl)
      rw [hrows, hrows'] at hlength
      simp only [repeated, hrows, hrows', List.isEmpty_cons, Bool.false_eq_true, if_false]
      refine Tracks.rows hlength fun index cells cells' _ hcells' => ?_
      exact (first (.body ⟨key, index, cells⟩ :: path) (.some (hrows' ▸ hcells'))).cons rfl
  | cell index fs ih =>
    refine Tracks.append ?_ (ih path hrow)
    exact (Tracks.single (Visit.missing?_cell index path) hrow.step_eq).supply false

end Fragment

namespace Template

variable {t : Template} {a b : Arguments}

/-- What an execution gives depends on its steps up to the first that misses something. -/
theorem fillInto_congr
    (h : Step.untilMissing (t.steps a) = Step.untilMissing (t.steps b)) (sink : Sink) :
    t.fillInto a sink = t.fillInto b sink := by
  have hmissing : (t.steps a).findSome? Step.missing? = (t.steps b).findSome? Step.missing? := by
    rw [← Step.findSome?_untilMissing, h, Step.findSome?_untilMissing]
  have hbound : t.bound a = t.bound b := by
    rw [bound, bound, ← Step.markers_untilMissing, h, Step.markers_untilMissing]
  cases hcomplete : (t.steps a).findSome? Step.missing? with
  | some what => simp only [fillInto, ← hmissing, hcomplete, hbound]
  | none =>
    have hsteps := Step.eq_of_untilMissing_eq h hcomplete
    simp only [fillInto, textWith, hbound, hsteps]

/-- An execution depends only on what the fragments that it gets to mention. Arguments that agree on
this give the same text and values or the same failure, into whatever sink the values go. -/
theorem fill_of_agrees (t : Template) (a b : Arguments)
    (h : ∀ v ∈ t.met a, v.agrees a b = true) :
    t.fill a = t.fill b ∧ ∀ sink, t.fillInto a sink = t.fillInto b sink := by
  have hsteps : Step.untilMissing (t.steps a) = Step.untilMissing (t.steps b) :=
    (Fragment.tracks [] .none t.fragments).same h
  have hinto (sink : Sink) := fillInto_congr hsteps sink
  exact ⟨by rw [fill, fill, hinto], hinto⟩

/-- Arguments that differ in the branch that is not taken, in rows of a collection that is not
reached, in a column that no cell uses and in columns behind the last one that is used. -/
theorem fill_of_agrees_surplus :
    let t : Template :=
      ⟨[.choice "k" [.hole (.param ⟨0⟩ "p0"), .hole (.schema ⟨0, "app", none⟩)]
          [.each "other" [.cell 0] [] ", ", .hole (.inline "x")],
        .group true [.each "rows" [.cell 1, .hole (.param ⟨0⟩ "p0")] [.text "NULL"] ", "]],
        ⟨.dollar, .double, true⟩, false⟩
    let a : Arguments :=
      { param := fun _ => some (.bool true)
        rows := fun key => if key = "rows" then
            [[.inline "1", .value .null], [.inline "2", .inline "now()"]]
          else [] }
    let b : Arguments :=
      { param := fun p => if p = ⟨0⟩ then some (.bool true) else none
        inline := fun _ => some "x"
        alternative := fun key => key = "unused"
        rows := fun key => if key = "rows" then
            [[.value .null, .value .null], [.inline "", .inline "now()", .value .null]]
          else [[.inline "3"]]
        schema := fun name => if name = "app" then "app" else "public" }
    (∀ v ∈ t.met a, v.agrees a b = true) ∧ t.fill a = t.fill b ∧
      ∀ sink, t.fillInto a sink = t.fillInto b sink := by
  intro t a b
  have h : ∀ v ∈ t.met a, v.agrees a b = true := by decide
  exact ⟨h, fill_of_agrees t a b h⟩

end Template

end PreparedSql
