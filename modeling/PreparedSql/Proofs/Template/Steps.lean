import PreparedSql.Template.Fill

/-!
# Steps of repetitions, and what steps ask for

The steps of a repetition are those of its rows, joined by the separator. A
relation between lists of steps that survives appending therefore extends from
the rows to the whole repetition; most statements about repetitions go through
`Fragment.repeated_rel`.

Markers and missing items are what steps ask of an execution. The rest is layout
and has no part in which values are bound or what is reported missing.
-/

namespace PreparedSql

/-- A relation that survives joining by the separators extends to intercalated lists. -/
theorem intercalate_mapIdx_rel {α β γ : Type} {S : List β → List γ → Prop} {separator : List β}
    {separator' : List γ}
    (join : ∀ {x x' y y'}, S x x' → S y y' → S (x ++ separator ++ y) (x' ++ separator' ++ y'))
    {rows : List α} {f : Nat → α → List β} {f' : Nat → α → List γ} (hne : rows ≠ [])
    (h : ∀ i row, rows[i]? = some row → S (f i row) (f' i row)) :
    S (List.intercalate separator (rows.mapIdx f))
      (List.intercalate separator' (rows.mapIdx f')) := by
  induction rows generalizing f f' with
  | nil => exact absurd rfl hne
  | cons row rows ih =>
    have first : S (f 0 row) (f' 0 row) := h 0 row rfl
    by_cases hrows : rows = []
    · subst hrows
      simpa using first
    · have rest := ih hrows (fun i next hi => h (i + 1) next (by simpa using hi))
      simp only [List.mapIdx_cons]
      rw [List.intercalate_cons_of_ne_nil (by simpa using hrows),
        List.intercalate_cons_of_ne_nil (by simpa using hrows)]
      exact join first rest

theorem intercalate_mapIdx_pred {α β : Type} {S : List β → Prop} {separator : List β}
    (join : ∀ {x y}, S x → S y → S (x ++ separator ++ y)) {rows : List α} {f : Nat → α → List β}
    (hne : rows ≠ []) (h : ∀ i row, rows[i]? = some row → S (f i row)) :
    S (List.intercalate separator (rows.mapIdx f)) :=
  @intercalate_mapIdx_rel α β β (fun x _ => S x) separator separator join rows f f hne h

/-- What is in one of the lists is in the intercalated list. -/
theorem mem_intercalate_of_mem {α : Type} {separator part : List α} {parts : List (List α)} {x : α}
    (hpart : part ∈ parts) (hx : x ∈ part) : x ∈ List.intercalate separator parts := by
  induction parts with
  | nil => simp at hpart
  | cons first parts ih =>
    by_cases hparts : parts = []
    · subst hparts
      obtain rfl := List.mem_singleton.1 hpart
      simpa using hx
    · rw [List.intercalate_cons_of_ne_nil hparts]
      rcases List.mem_cons.1 hpart with rfl | hpart
      · exact List.mem_append_left _ (List.mem_append_left _ hx)
      · exact List.mem_append_right _ (ih hpart)

namespace Fragment

variable {a : Arguments} {q : QuoteMark} {row : Option RowAt}

/-- The steps of a repetition between its gap and its end. -/
def repeated (a : Arguments) (q : QuoteMark) (row : Option RowAt) (key : Key)
    (body empty : List Fragment) (between : String) : List Step :=
  match a.rows key with
  | [] => .fresh :: walkAll a q row empty
  | rows =>
    List.intercalate [.write between]
      (rows.mapIdx fun index cells => .fresh :: walkAll a q (some ⟨key, index, cells⟩) body)

theorem walk_each (a : Arguments) (q : QuoteMark) (row : Option RowAt) (key : Key)
    (body empty : List Fragment) (between : String) :
    walk a q row (.each key body empty between) =
      .gap :: repeated a q row key body empty between ++ [.settle false] := rfl

/-- A relation that survives appending holds of two repetitions when it holds of
their rows and of their empty cases. -/
theorem repeated_rel {S : List Step → List Step → Prop} {key : Key}
    {body body' empty empty' : List Fragment} {between : String}
    (append : ∀ {x x' y y'}, S x x' → S y y' → S (x ++ y) (x' ++ y'))
    (separator : S [.write between] [.write between])
    (rows : ∀ index cells, (a.rows key)[index]? = some cells →
      S (.fresh :: walkAll a q (some ⟨key, index, cells⟩) body)
        (.fresh :: walkAll a q (some ⟨key, index, cells⟩) body'))
    (none : S (.fresh :: walkAll a q row empty) (.fresh :: walkAll a q row empty')) :
    S (repeated a q row key body empty between) (repeated a q row key body' empty' between) := by
  unfold repeated
  cases hrows : a.rows key with
  | nil => exact none
  | cons first rest =>
    rw [hrows] at rows
    exact intercalate_mapIdx_rel (fun h h' => append (append h separator) h') (by simp) rows

/-- The same for a property of one repetition. -/
theorem repeated_pred {S : List Step → Prop} {key : Key} {body empty : List Fragment}
    {between : String} (append : ∀ {x y}, S x → S y → S (x ++ y)) (separator : S [.write between])
    (rows : ∀ index cells, (a.rows key)[index]? = some cells →
      S (.fresh :: walkAll a q (some ⟨key, index, cells⟩) body))
    (none : S (.fresh :: walkAll a q row empty)) : S (repeated a q row key body empty between) :=
  @repeated_rel a q row (fun steps _ => S steps) key body body empty empty between append separator
    rows none

end Fragment

namespace Step

/-- Steps that ask something of the arguments. -/
def asks (step : Step) : Bool := step.marker?.isSome || step.missing?.isSome

/-- What steps ask for, in order. -/
def demands (steps : List Step) : List Step := steps.filter asks

@[simp] theorem demands_nil : demands [] = [] := rfl

@[simp] theorem demands_append (steps more : List Step) :
    demands (steps ++ more) = demands steps ++ demands more :=
  List.filter_append ..

theorem demands_cons (step : Step) (steps : List Step) :
    demands (step :: steps) = if step.asks then step :: demands steps else demands steps :=
  List.filter_cons

/-- A step that asks for nothing shows no marker and misses nothing. -/
theorem not_asks_iff {step : Step} :
    step.asks = false ↔ step.marker? = none ∧ step.missing? = none := by
  simp [asks]

/-- The first missing item is among what is asked for. -/
theorem findSome?_demands (steps : List Step) :
    (demands steps).findSome? missing? = steps.findSome? missing? := by
  induction steps with
  | nil => rfl
  | cons step steps ih =>
    cases h : step.asks with
    | false => simp [demands_cons, h, not_asks_iff.mp h, ih]
    | true => simp [demands_cons, h, List.findSome?_cons, ih]

/-- Nothing is marked once something is missing. -/
theorem markers_cons (step : Step) (steps : List Step) :
    markers (step :: steps) =
      if step.missing?.isSome then [] else step.marker?.toList ++ markers steps := by
  cases step <;> rfl

theorem markers_demands (steps : List Step) : markers (demands steps) = markers steps := by
  induction steps with
  | nil => rfl
  | cons step steps ih =>
    cases h : step.asks with
    | false => simp [demands_cons, h, markers_cons, not_asks_iff.mp h, ih]
    | true => simp [demands_cons, h, markers_cons, ih]

end Step

/-- Nothing that the steps ask for is missing. -/
def Complete (steps : List Step) : Prop := ∀ step ∈ steps, step.missing? = none

@[simp] theorem complete_nil : Complete [] := by simp [Complete]

@[simp] theorem complete_append {steps more : List Step} :
    Complete (steps ++ more) ↔ Complete steps ∧ Complete more := List.forall_mem_append

@[simp] theorem complete_cons {step : Step} {steps : List Step} :
    Complete (step :: steps) ↔ step.missing? = none ∧ Complete steps := List.forall_mem_cons

end PreparedSql
