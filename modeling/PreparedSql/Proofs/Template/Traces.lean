import PreparedSql.Proofs.Layout.Sheet
import PreparedSql.Proofs.Template.Markers
import PreparedSql.Proofs.Template.Tree

/-!
# Traces

The steps of an execution, each with the position in the template that it is taken for. Taking the
steps on a sheet instead of a page tells for every character of the filled text where it comes from.
-/

namespace PreparedSql

/-- A step and the position it is taken for. -/
structure PlacedStep where
  position : Position
  step : Step
deriving DecidableEq, Repr

namespace Fragment

mutual

/-- The steps of one fragment, for which the position is given. -/
def trace (a : Arguments) (q : QuoteMark) (row : Option RowAt) (c : Position) :
    Fragment → List PlacedStep
  | .text s => [⟨c, .token s⟩]
  | .delimiter s kind => [⟨c, .delimiter s kind⟩]
  | .group false children => traceAll a q row c 0 children
  | .group true children =>
    ⟨c, .enter⟩ :: traceAll a q row (c ++ [.indented]) 0 children ++ [⟨c, .exit⟩]
  | .hole h => [⟨c, .gap⟩, ⟨c, h.step a q⟩, ⟨c, .settle h.qualifies⟩]
  | .cell index => [⟨c, .gap⟩, ⟨c, RowAt.step row index⟩, ⟨c, .settle false⟩]
  | .choice key main alternative =>
    (if a.alternative key then traceAll a q row c 0 alternative else traceAll a q row c 0 main) ++
      [⟨c, .settle false⟩]
  | .each key body empty between =>
    let inner :=
      match a.rows key with
      | [] => ⟨c, .fresh⟩ :: traceAll a q row c 0 empty
      | rows =>
        List.intercalate [⟨c ++ [.between], .write between⟩]
          (rows.mapIdx fun index cells =>
            ⟨c ++ [.row index], .fresh⟩ ::
              traceAll a q (some ⟨key, index, cells⟩) (c ++ [.row index]) 0 body)
    ⟨c, .gap⟩ :: inner ++ [⟨c, .settle false⟩]

/-- The steps of fragments in order, the first of which is the `n`-th of its list. -/
def traceAll (a : Arguments) (q : QuoteMark) (row : Option RowAt) (c : Position) (n : Nat) :
    List Fragment → List PlacedStep
  | [] => []
  | f :: fs => trace a q row (c ++ [.fragment n]) f ++ traceAll a q row c (n + 1) fs

end

variable {a : Arguments} {q : QuoteMark} {row : Option RowAt}

theorem traceAll_append (c : Position) (n : Nat) (fs gs : List Fragment) :
    traceAll a q row c n (fs ++ gs) =
      traceAll a q row c n fs ++ traceAll a q row c (n + fs.length) gs := by
  induction fs generalizing n with
  | nil => rfl
  | cons f fs ih =>
    have hnext : n + 1 + fs.length = n + (fs.length + 1) := by omega
    simp [traceAll, ih, hnext]

/-- The steps of a repetition between its gap and its end. -/
def traceRepeated (a : Arguments) (q : QuoteMark) (row : Option RowAt) (c : Position) (key : Key)
    (body empty : List Fragment) (between : String) : List PlacedStep :=
  match a.rows key with
  | [] => ⟨c, .fresh⟩ :: traceAll a q row c 0 empty
  | rows =>
    List.intercalate [⟨c ++ [.between], .write between⟩]
      (rows.mapIdx fun index cells =>
        ⟨c ++ [.row index], .fresh⟩ ::
          traceAll a q (some ⟨key, index, cells⟩) (c ++ [.row index]) 0 body)

theorem trace_each (c : Position) (key : Key) (body empty : List Fragment) (between : String) :
    trace a q row c (.each key body empty between) =
      ⟨c, .gap⟩ :: traceRepeated a q row c key body empty between ++ [⟨c, .settle false⟩] := rfl

/-- The steps are those of the walk. -/
theorem map_step_traceAll (c : Position) (n : Nat) (fs : List Fragment) :
    (traceAll a q row c n fs).map PlacedStep.step = walkAll a q row fs := by
  induction fs using listInduction generalizing row c n with
  | nil => rfl
  | text s fs ih | delimiter s kind fs ih | hole h fs ih | cell index fs ih =>
    simp [traceAll, trace, walkAll, walk, ih]
  | group indented children fs inner ih =>
    cases indented <;> simp [traceAll, trace, walkAll, walk, inner, ih]
  | choice key main alternative fs first second ih =>
    cases hkey : a.alternative key <;>
      simp [traceAll, trace, walkAll, walk, first, second, ih, hkey]
  | each key body empty between fs first second ih =>
    have hrepeated (c : Position) :
        (traceRepeated a q row c key body empty between).map PlacedStep.step =
          repeated a q row key body empty between := by
      unfold traceRepeated repeated
      cases hrows : a.rows key with
      | nil => simp [second]
      | cons cells rest =>
        refine intercalate_mapIdx_rel (S := fun x y => x.map PlacedStep.step = y)
          (fun h h' => ?_) (List.cons_ne_nil _ _) fun _ _ _ => ?_
        · rw [List.map_append, List.map_append, h, h']
          rfl
        · simp [first]
    simp [traceAll, trace_each, walkAll, walk_each, hrepeated, ih]

end Fragment

/-! ## Traces on sheets -/

namespace PlacedStep

variable (pretty : Bool) (spell : Marker → String)

/-- Takes a step on a sheet. What is missing counts as an empty text. -/
def act (s : Sheet) (x : PlacedStep) : Sheet :=
  match x.step with
  | .token t => s.token ⟨t, true, x.position⟩
  | .delimiter t kind => s.delimiter pretty ⟨t, true, x.position⟩ kind
  | .enter => s.enter pretty
  | .exit => s.exit pretty
  | .gap => s.gap
  | .write t => s.put ⟨t, false, x.position⟩
  | .marker m => s.put ⟨spell m, false, x.position⟩
  | .settle glued => s.settle glued
  | .fresh => s.fresh
  | .missing _ => s.put ⟨"", false, x.position⟩

/-- Takes steps in order. -/
def actAll (s : Sheet) (xs : List PlacedStep) : Sheet := xs.foldl (act pretty spell) s

/-- What a step writes. An empty token leaves no trace. -/
def imprint? (x : PlacedStep) : Option Imprint :=
  match x.step with
  | .token t | .delimiter t _ => if t = "" then none else some ⟨t, true, x.position⟩
  | .write t => some ⟨t, false, x.position⟩
  | .marker m => some ⟨spell m, false, x.position⟩
  | .missing _ => some ⟨"", false, x.position⟩
  | .enter | .exit | .gap | .settle _ | .fresh => none

variable {pretty spell} {s : Sheet}

@[simp] theorem actAll_nil : actAll pretty spell s [] = s := rfl

@[simp] theorem actAll_cons (x : PlacedStep) (xs : List PlacedStep) :
    actAll pretty spell s (x :: xs) = actAll pretty spell (act pretty spell s x) xs := rfl

theorem actAll_append (xs ys : List PlacedStep) :
    actAll pretty spell s (xs ++ ys) = actAll pretty spell (actAll pretty spell s xs) ys :=
  List.foldl_append

theorem page_act (x : PlacedStep) :
    (act pretty spell s x).page = x.step.act pretty spell s.page := by
  obtain ⟨c, step⟩ := x
  cases step with
  | token t => exact s.page_token _
  | delimiter t kind => exact s.page_delimiter _ _ _
  | enter => exact s.page_enter _
  | exit => exact s.page_exit _
  | gap => exact s.page_gap
  | write t => exact s.page_put _
  | marker m => exact s.page_put _
  | settle glued => exact s.page_settle _
  | fresh => exact s.page_fresh
  | missing what => exact s.page_put _

/-- On a sheet, steps do what they do on a page. -/
theorem page_actAll (xs : List PlacedStep) :
    (actAll pretty spell s xs).page = Step.actAll pretty spell s.page (xs.map step) := by
  induction xs generalizing s with
  | nil => rfl
  | cons x xs ih => rw [actAll_cons, ih, page_act, List.map_cons, Step.actAll_cons]

theorem imprints_act (x : PlacedStep) :
    (act pretty spell s x).imprints = s.imprints ++ (x.imprint? spell).toList := by
  obtain ⟨c, step⟩ := x
  cases step with
  | token t =>
    refine (s.imprints_token _).trans (congrArg (s.imprints ++ ·) ?_)
    by_cases ht : t = "" <;> simp [imprint?, ht]
  | delimiter t kind =>
    refine (s.imprints_delimiter _ _ _).trans (congrArg (s.imprints ++ ·) ?_)
    by_cases ht : t = "" <;> simp [imprint?, ht]
  | write t => exact s.imprints_put _
  | marker m => exact s.imprints_put _
  | missing what => exact s.imprints_put _
  | enter => exact (s.imprints_enter pretty).trans (List.append_nil _).symm
  | exit => exact (s.imprints_exit pretty).trans (List.append_nil _).symm
  | gap => exact s.imprints_gap.trans (List.append_nil _).symm
  | settle glued | fresh => exact (List.append_nil _).symm

theorem imprints_actAll (xs : List PlacedStep) :
    (actAll pretty spell s xs).imprints = s.imprints ++ xs.filterMap (imprint? spell) := by
  induction xs generalizing s with
  | nil => simp
  | cons x xs ih =>
    rw [actAll_cons, ih, imprints_act, List.append_assoc]
    cases hx : x.imprint? spell <;> simp [hx]

theorem sound_act (h : s.Sound) (x : PlacedStep) : (act pretty spell s x).Sound := by
  obtain ⟨c, step⟩ := x
  cases step with
  | token t => exact h.token _
  | delimiter t kind => exact h.delimiter _ _ _
  | enter => exact h.enter _
  | exit => exact h.exit _
  | gap => exact h.gap
  | write t => exact h.put _
  | marker m => exact h.put _
  | missing what => exact h.put _
  | settle glued | fresh => exact ⟨h.top, h.entries⟩

theorem sound_actAll (h : s.Sound) (xs : List PlacedStep) : (actAll pretty spell s xs).Sound := by
  induction xs generalizing s with
  | nil => exact h
  | cons x xs ih => exact ih (sound_act h x)

/-- What holds before and after each row of a repetition, and of the text between them, holds at its
end. -/
theorem actAll_intercalate {α : Type} {I J : Nat → Sheet → Prop} {f : Nat → α → List PlacedStep}
    {separator : List PlacedStep} {rows : List α} (hne : rows ≠ [])
    (row : ∀ i x s, I i s → J i (actAll pretty spell s (f i x)))
    (between : ∀ i s, J i s → I (i + 1) (actAll pretty spell s separator)) (hs : I 0 s) :
    ∃ i, J i (actAll pretty spell s (List.intercalate separator (rows.mapIdx f))) := by
  induction rows generalizing f I J s with
  | nil => exact absurd rfl hne
  | cons x rows ih =>
    have hfirst := row 0 x s hs
    by_cases hrows : rows = []
    · subst hrows
      exact ⟨0, by simpa using hfirst⟩
    · obtain ⟨i, hi⟩ := ih (I := fun i => I (i + 1)) (J := fun i => J (i + 1))
        (f := fun i => f (i + 1)) hrows (fun i => row (i + 1)) (fun i => between (i + 1))
        (between 0 _ hfirst)
      refine ⟨i + 1, ?_⟩
      rw [List.mapIdx_cons, List.intercalate_cons_of_ne_nil (by simpa using hrows),
        actAll_append, actAll_append]
      exact hi

end PlacedStep

namespace Template

/-- The steps of an execution with the positions they are taken for. -/
def trace (t : Template) (a : Arguments) : List PlacedStep :=
  Fragment.traceAll a t.format.quote none [] 0 t.fragments

/-- What an execution writes, in order. -/
def imprints (t : Template) (a : Arguments) : List Imprint :=
  (t.trace a).filterMap (PlacedStep.imprint? (t.spell a))

/-- The filled text with the positions it comes from. -/
def sheet (t : Template) (a : Arguments) : Sheet :=
  PlacedStep.actAll t.format.pretty (t.spell a) {} (t.trace a)

end Template

/-- A sheet with the given text, on which the imprints stand in order with nothing but white space
around them. -/
structure Sheet.Lays (s : Sheet) (xs : List Imprint) (text : String) : Prop where
  sound : s.Sound
  imprints : s.imprints = xs
  text : s.page.text = text

/-- The text that an execution gives is on the sheet. -/
theorem Template.sheet_lays {t : Template} {a : Arguments} {sql : Sql} (h : t.fill a = .ok sql) :
    (t.sheet a).Lays (t.imprints a) sql.text := by
  refine ⟨PlacedStep.sound_actAll Sheet.sound_empty _, PlacedStep.imprints_actAll _, ?_⟩
  cases hmissing : (t.steps a).findSome? Step.missing? with
  | some what =>
    rw [fill_of_missing hmissing] at h
    cases h
  | none =>
    rw [fill_of_complete hmissing] at h
    cases h
    rw [sheet, PlacedStep.page_actAll, trace, Fragment.map_step_traceAll]
    rfl

end PreparedSql
