import Mathlib.Data.List.Basic
import Mathlib.Logic.Equiv.Defs
import PreparedSql.Proofs.Template.Steps
import PreparedSql.Proofs.Template.Tree
import PreparedSql.Template.Condense

/-!
# Renaming objects

Objects have identities beside their names. A renaming exchanges objects for others that differ in
identity only. A renaming is about all objects, not only those of one statement.

Filling a renamed template with arguments that are moved along has the same outcome: an execution
asks an object for its name or for what the arguments hold for it, and markers are told apart in
the same way.
-/

namespace PreparedSql

/-- An exchange of objects that keeps all but their identities. -/
structure Renaming where
  table : Equiv.Perm TableId
  param : Equiv.Perm Param
  type : Equiv.Perm EntityType
  schema : Equiv.Perm Schema
  catalog : Equiv.Perm Catalog
  type_name : ∀ t, (type t).name = t.name
  type_interface : ∀ t, (type t).interface = t.interface
  schema_name : ∀ s, (schema s).name = s.name
  schema_catalog : ∀ s, (schema s).catalog = s.catalog.map catalog
  catalog_name : ∀ c, (catalog c).name = c.name

namespace Renaming

/-- Every object stays what it is. -/
def refl : Renaming where
  table := .refl _
  param := .refl _
  type := .refl _
  schema := .refl _
  catalog := .refl _
  type_name _ := rfl
  type_interface _ := rfl
  schema_name _ := rfl
  schema_catalog s := by simp
  catalog_name _ := rfl

end Renaming

attribute [simp] Renaming.type_name Renaming.type_interface Renaming.schema_name
  Renaming.catalog_name

variable (ρ : Renaming)

/-- The arguments that hold for renamed objects what these hold for the objects themselves. -/
def Arguments.along (a : Arguments) : Arguments :=
  { a with param := a.param ∘ ρ.param.symm, typeId := a.typeId ∘ ρ.type.symm }

@[simp] theorem Arguments.along_param (a : Arguments) (p : Param) :
    (a.along ρ).param (ρ.param p) = a.param p := by
  simp [along]

@[simp] theorem Arguments.along_typeId (a : Arguments) (t : EntityType) :
    (a.along ρ).typeId (ρ.type t) = a.typeId t := by
  simp [along]

def Hole.rename : Hole → Hole
  | .param p name => .param (ρ.param p) name
  | .inline key => .inline key
  | .schema s => .schema (ρ.schema s)
  | .catalog c => .catalog (ρ.catalog c)
  | .typeId t => .typeId (ρ.type t)

@[simp] theorem Hole.qualifies_rename (h : Hole) : (h.rename ρ).qualifies = h.qualifies := by
  cases h <;> rfl

@[simp] theorem Hole.isParam_rename (h : Hole) : (h.rename ρ).isParam = h.isParam := by
  cases h <;> rfl

namespace Fragment

mutual

def rename : Fragment → Fragment
  | .text s => .text s
  | .delimiter s kind => .delimiter s kind
  | .group indented children => .group indented (renameAll children)
  | .hole h => .hole (h.rename ρ)
  | .choice key main alternative => .choice key (renameAll main) (renameAll alternative)
  | .each key body empty between => .each key (renameAll body) (renameAll empty) between
  | .cell index => .cell index

def renameAll : List Fragment → List Fragment
  | [] => []
  | f :: fs => rename f :: renameAll fs

end

@[simp] theorem renameAll_append (fs gs : List Fragment) :
    renameAll ρ (fs ++ gs) = renameAll ρ fs ++ renameAll ρ gs := by
  induction fs with
  | nil => rfl
  | cons f fs ih => simp [renameAll, ih]

@[simp] theorem renameAll_collected (p : Page) : renameAll ρ p.collected = p.collected := by
  unfold Page.collected
  split <;> rfl

/-- Condensing sees no objects. -/
theorem condenseAll_renameAll (pretty : Bool) (p : Page) (fs : List Fragment) :
    condenseAll pretty p (renameAll ρ fs) =
      (renameAll ρ (condenseAll pretty p fs).1, (condenseAll pretty p fs).2) := by
  induction fs using listInduction generalizing p with
  | nil => rfl
  | text s fs ih => simp [renameAll, rename, condenseAll, condense, ih]
  | delimiter s kind fs ih => simp [renameAll, rename, condenseAll, condense, ih]
  | group indented children fs inner ih =>
    cases indented <;> simp [renameAll, rename, condenseAll, condense, inner, ih]
  | hole h fs ih => simp [renameAll, rename, condenseAll, condense, ih]
  | choice key main alternative fs first second ih =>
    simp [renameAll, rename, condenseAll, condense, first, second, ih]
  | each key body empty between fs first second ih =>
    simp [renameAll, rename, condenseAll, condense, first, second, ih]
  | cell index fs ih => simp [renameAll, rename, condenseAll, condense, ih]

end Fragment

/-! ## Executions -/

/-- What is renamed keeps its index. -/
theorem idxOf_map {α β : Type} [DecidableEq α] [DecidableEq β] {f : α → β}
    (hf : Function.Injective f) (xs : List α) (x : α) : (xs.map f).idxOf (f x) = xs.idxOf x := by
  induction xs with
  | nil => rfl
  | cons y xs ih => simp [List.idxOf_cons, hf.beq_eq, ih]

def Slot.rename : Slot → Slot
  | .param p => .param (ρ.param p)
  | .cell collection row column => .cell collection row column

theorem Slot.rename_injective : Function.Injective (Slot.rename ρ) := by
  intro s s' h
  cases s <;> cases s' <;> simp_all [rename]

def Marker.rename (m : Marker) : Marker := { m with slot := m.slot.rename ρ }

namespace Step

/-- A step on the way through a renamed template. -/
def rename : Step → Step
  | .marker m => .marker (m.rename ρ)
  | step => step

@[simp] theorem missing?_rename (step : Step) : (step.rename ρ).missing? = step.missing? := by
  cases step <;> rfl

theorem findSome?_rename (steps : List Step) :
    (steps.map (rename ρ)).findSome? missing? = steps.findSome? missing? := by
  simp [List.findSome?_map, Function.comp_def]

theorem markers_rename (steps : List Step) :
    markers (steps.map (rename ρ)) = (markers steps).map (Marker.rename ρ) := by
  induction steps with
  | nil => rfl
  | cons step steps ih => cases step <;> simp [rename, markers_cons, marker?, missing?, ih]

/-- Markers that are spelled alike are shown alike. -/
theorem actAll_rename (pretty : Bool) {spell spell' : Marker → String}
    (hspell : ∀ m, spell' (m.rename ρ) = spell m) (p : Page) (steps : List Step) :
    actAll pretty spell' p (steps.map (rename ρ)) = actAll pretty spell p steps := by
  induction steps generalizing p with
  | nil => rfl
  | cons step steps ih =>
    have hstep : act pretty spell' p (step.rename ρ) = act pretty spell p step := by
      cases step <;> simp [rename, act, hspell]
    rw [List.map_cons, actAll_cons, actAll_cons, hstep, ih]

end Step

theorem Hole.step_rename (a : Arguments) (q : QuoteMark) (h : Hole) :
    (h.rename ρ).step (a.along ρ) q = (h.step a q).rename ρ := by
  cases h with
  | param p name =>
    simp only [rename, step, Arguments.along_param]
    cases a.param p <;> rfl
  | inline key =>
    simp only [rename, step, Arguments.along]
    cases a.inline key <;> rfl
  | schema s => simp [rename, step, Step.rename, Arguments.along]
  | catalog c => simp [rename, step, Step.rename, Arguments.along]
  | typeId t =>
    simp only [rename, step, Arguments.along_typeId, ρ.type_name, ρ.type_interface]
    cases a.typeId t with
    | some number => rfl
    | none => cases t.interface <;> rfl

/-- The way through a renamed template is the renamed way. -/
theorem Fragment.walkAll_renameAll (a : Arguments) (q : QuoteMark) (row : Option RowAt)
    (fs : List Fragment) :
    walkAll (a.along ρ) q row (renameAll ρ fs) = (walkAll a q row fs).map (Step.rename ρ) := by
  induction fs using listInduction generalizing row with
  | nil => rfl
  | text s fs ih => simp [renameAll, rename, walkAll, walk, ih, Step.rename]
  | delimiter s kind fs ih => simp [renameAll, rename, walkAll, walk, ih, Step.rename]
  | group indented children fs inner ih =>
    cases indented <;> simp [renameAll, rename, walkAll, walk, inner, ih, Step.rename]
  | hole h fs ih => simp [renameAll, rename, walkAll, walk, ih, Hole.step_rename, Step.rename]
  | choice key main alternative fs first second ih =>
    have hkey : (a.along ρ).alternative key = a.alternative key := rfl
    cases h : a.alternative key <;>
      simp [renameAll, rename, walkAll, walk, first, second, ih, Step.rename, hkey, h]
  | each key body empty between fs first second ih =>
    have hkey : (a.along ρ).rows key = a.rows key := rfl
    have hrows : repeated (a.along ρ) q row key (renameAll ρ body) (renameAll ρ empty) between =
        (repeated a q row key body empty between).map (Step.rename ρ) := by
      simp only [repeated, hkey]
      cases a.rows key with
      | nil => simp [second, Step.rename]
      | cons cells rows =>
        refine intercalate_mapIdx_rel
          (S := fun steps renamed => steps = renamed.map (Step.rename ρ)) ?_
          (List.cons_ne_nil cells rows) fun index cells _ => ?_
        · rintro x x' y y' rfl rfl
          simp [Step.rename]
        · simp [first, Step.rename]
    simp [renameAll, rename, walkAll, walk_each, hrows, ih, Step.rename]
  | cell index fs ih =>
    have hcell : (RowAt.step row index).rename ρ = RowAt.step row index := by
      cases row with
      | none => rfl
      | some at_ =>
        simp only [RowAt.step]
        split <;> rfl
    simp only [renameAll, rename, walkAll, walk, ih, List.map_append, List.map_cons, List.map_nil,
      hcell]
    rfl

namespace Marker

theorem firsts_rename (seen : List Slot) (ms : List Marker) :
    firsts (seen.map (Slot.rename ρ)) (ms.map (Marker.rename ρ)) =
      (firsts seen ms).map (Marker.rename ρ) := by
  induction ms generalizing seen with
  | nil => rfl
  | cons m ms ih =>
    have hmem : m.slot.rename ρ ∈ seen.map (Slot.rename ρ) ↔ m.slot ∈ seen :=
      List.mem_map_of_injective (Slot.rename_injective ρ)
    have hslot : (m.rename ρ).slot = m.slot.rename ρ := rfl
    by_cases hm : m.slot ∈ seen
    · simp [firsts, hslot, hmem, hm, ih]
    · have hrest := ih (m.slot :: seen)
      simp only [List.map_cons] at hrest
      simp [firsts, hslot, hmem, hm, hrest]

theorem bound_rename (style : MarkerStyle) (ms : List Marker) :
    bound style (ms.map (Marker.rename ρ)) = (bound style ms).map (Marker.rename ρ) := by
  unfold bound
  split
  · exact firsts_rename ρ [] ms
  · rfl

theorem spell_rename (style : MarkerStyle) (ordinal : Nat → Nat) (ms : List Marker) (m : Marker) :
    spell style ((ms.map (Marker.rename ρ)).map slot) ordinal (m.rename ρ) =
      spell style (ms.map slot) ordinal m := by
  have hindex : ((ms.map (Marker.rename ρ)).map slot).idxOf (m.rename ρ).slot =
      (ms.map slot).idxOf m.slot := by
    rw [← idxOf_map (Slot.rename_injective ρ) (ms.map slot), List.map_map, List.map_map]
    rfl
  unfold spell
  rw [hindex]
  rfl

end Marker

namespace Template

def rename (t : Template) : Template := { t with fragments := Fragment.renameAll ρ t.fragments }

theorem condense_rename (t : Template) : (t.rename ρ).condense = t.condense.rename ρ := by
  obtain ⟨fragments, format, condensed⟩ := t
  cases condensed with
  | true => rfl
  | false =>
    simp [condense, rename, Fragment.condensed, Fragment.condenseAll_renameAll]

theorem bound_rename (t : Template) (a : Arguments) :
    (t.rename ρ).bound (a.along ρ) = (t.bound a).map (Marker.rename ρ) := by
  simp only [bound, steps, rename, Fragment.walkAll_renameAll, Step.markers_rename,
    Marker.bound_rename]

/-- A renamed template is filled like the template itself, with any sink. -/
theorem fillInto_rename (t : Template) (a : Arguments) (sink : Sink) :
    (t.rename ρ).fillInto (a.along ρ) sink = t.fillInto a sink := by
  have hsteps : (t.rename ρ).steps (a.along ρ) = (t.steps a).map (Step.rename ρ) :=
    Fragment.walkAll_renameAll ρ a t.format.quote none t.fragments
  have hvalues : ((t.rename ρ).bound (a.along ρ)).map Marker.value =
      (t.bound a).map Marker.value := by
    rw [bound_rename, List.map_map]
    rfl
  have htext : (t.rename ρ).textWith (a.along ρ) sink.ordinal = t.textWith a sink.ordinal := by
    simp only [textWith, bound_rename, hsteps]
    exact congrArg Page.text (Step.actAll_rename ρ _ (Marker.spell_rename ρ _ _ (t.bound a)) _ _)
  simp only [fillInto, hsteps, Step.findSome?_rename, hvalues, htext]

end Template

end PreparedSql
