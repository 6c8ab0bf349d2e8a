import PreparedSql.Template.Step

/-!
# Trees of fragments

Groups, choices and repetitions hold further lists of fragments, so a list of
fragments is a tree. Every function on fragments has a form for lists, and one
induction over lists, with a case for each kind of first fragment, serves for
all statements about trees.

A tree is *well spaced* when no token in it is a lone space and, in pretty
printing, no branch of a choice or a repetition begins with an indented group.
Otherwise spacing inside the branch could reach back over text that is only
known at execution.
-/

namespace PreparedSql

namespace Fragment

/-- Induction over a list of fragments and the lists inside it. -/
@[elab_as_elim]
theorem listInduction {motive : List Fragment → Prop} (nil : motive [])
    (text : ∀ s fs, motive fs → motive (.text s :: fs))
    (delimiter : ∀ s kind fs, motive fs → motive (.delimiter s kind :: fs))
    (group : ∀ indented children fs, motive children → motive fs →
      motive (.group indented children :: fs))
    (hole : ∀ h fs, motive fs → motive (.hole h :: fs))
    (choice : ∀ key main alternative fs, motive main → motive alternative → motive fs →
      motive (.choice key main alternative :: fs))
    (each : ∀ key body empty between fs, motive body → motive empty → motive fs →
      motive (.each key body empty between :: fs))
    (cell : ∀ index fs, motive fs → motive (.cell index :: fs)) (fs : List Fragment) :
    motive fs := by
  have ih (gs : List Fragment) (_ : sizeOf gs < sizeOf fs) : motive gs :=
    listInduction nil text delimiter group hole choice each cell gs
  cases fs with
  | nil => exact nil
  | cons f fs =>
    have rest : motive fs := ih fs (by simp only [List.cons.sizeOf_spec]; omega)
    cases f with
    | text s => exact text s fs rest
    | delimiter s kind => exact delimiter s kind fs rest
    | group indented children => exact group indented children fs (ih _ (by simp; omega)) rest
    | hole h => exact hole h fs rest
    | choice key main alternative =>
      exact choice key main alternative fs (ih _ (by simp; omega)) (ih _ (by simp; omega)) rest
    | each key body empty between =>
      exact each key body empty between fs (ih _ (by simp; omega)) (ih _ (by simp; omega)) rest
    | cell index => exact cell index fs rest
termination_by sizeOf fs

mutual

/-- A fragment and all fragments inside it. -/
def parts : Fragment → List Fragment
  | .group indented children => .group indented children :: partsAll children
  | .choice key main alternative =>
    .choice key main alternative :: (partsAll main ++ partsAll alternative)
  | .each key body empty between =>
    .each key body empty between :: (partsAll body ++ partsAll empty)
  | f => [f]

def partsAll : List Fragment → List Fragment
  | [] => []
  | f :: fs => parts f ++ partsAll fs

end

@[simp] theorem partsAll_append (fs gs : List Fragment) :
    partsAll (fs ++ gs) = partsAll fs ++ partsAll gs := by
  induction fs with
  | nil => rfl
  | cons f fs ih => simp [partsAll, ih]

/-- The text of a token. -/
def token? : Fragment → Option String
  | .text s => some s
  | .delimiter s _ => some s
  | _ => none

/-- The lists of fragments that an execution may or may not go through. -/
def branches : Fragment → List (List Fragment)
  | .choice _ main alternative => [main, alternative]
  | .each _ body empty _ => [body, empty]
  | _ => []

theorem partsAll_subset_of_branch {f : Fragment} {fs gs : List Fragment} (h : gs ∈ f.branches) :
    partsAll gs ⊆ partsAll (f :: fs) := by
  intro g hin
  cases f with
  | choice key main alternative =>
    simp only [branches, List.mem_cons, List.not_mem_nil, or_false] at h
    rcases h with rfl | rfl <;> simp [partsAll, parts, hin]
  | each key body empty between =>
    simp only [branches, List.mem_cons, List.not_mem_nil, or_false] at h
    rcases h with rfl | rfl <;> simp [partsAll, parts, hin]
  | _ => simp [branches] at h

/-- The parts of a part are parts of the whole. -/
theorem partsAll_subset_of_mem {f : Fragment} {fs : List Fragment} (h : f ∈ partsAll fs) :
    partsAll [f] ⊆ partsAll fs := by
  induction fs using listInduction with
  | nil => simp [partsAll] at h
  | text s fs ih | delimiter s kind fs ih | hole hole fs ih | cell index fs ih =>
    rcases List.mem_cons.1 h with rfl | hin
    · simp [partsAll]
    · exact List.Subset.trans (ih hin) (by simp [partsAll])
  | group indented children fs inner ih =>
    rcases List.mem_cons.1 h with rfl | hin
    · simp [partsAll]
    · rcases List.mem_append.1 hin with hin | hin
      · exact List.Subset.trans (inner hin) fun g hg => by simp [partsAll, parts, hg]
      · exact List.Subset.trans (ih hin) fun g hg => by simp [partsAll, hg]
  | choice key main alternative fs first second ih =>
    rcases List.mem_cons.1 h with rfl | hin
    · simp [partsAll]
    · rcases List.mem_append.1 hin with hin | hin
      · rcases List.mem_append.1 hin with hin | hin
        · exact List.Subset.trans (first hin) (partsAll_subset_of_branch (by simp [branches]))
        · exact List.Subset.trans (second hin) (partsAll_subset_of_branch (by simp [branches]))
      · exact List.Subset.trans (ih hin) fun g hg => by simp [partsAll, hg]
  | each key body empty between fs first second ih =>
    rcases List.mem_cons.1 h with rfl | hin
    · simp [partsAll]
    · rcases List.mem_append.1 hin with hin | hin
      · rcases List.mem_append.1 hin with hin | hin
        · exact List.Subset.trans (first hin) (partsAll_subset_of_branch (by simp [branches]))
        · exact List.Subset.trans (second hin) (partsAll_subset_of_branch (by simp [branches]))
      · exact List.Subset.trans (ih hin) fun g hg => by simp [partsAll, hg]

/-- What a list of fragments begins with, empty tokens and plain groups aside. -/
inductive Lead where
  /-- There is nothing in it. -/
  | nothing
  /-- A token, or a fragment that an execution completes. -/
  | content
  /-- An indented group. -/
  | indented
deriving DecidableEq, Repr

/-- The lead of two lists in a row. -/
def Lead.orElse : Lead → Lead → Lead
  | .nothing, next => next
  | lead, _ => lead

mutual

def lead : Fragment → Lead
  | .text s => if s = "" then .nothing else .content
  | .delimiter s _ => if s = "" then .nothing else .content
  | .group false children => leadAll children
  | .group true _ => .indented
  | .hole _ | .choice _ _ _ | .each _ _ _ _ | .cell _ => .content

def leadAll : List Fragment → Lead
  | [] => .nothing
  | f :: fs => (lead f).orElse (leadAll fs)

end

/-- Spacing never has to look back from one branch over text that only an
execution knows. -/
structure WellSpaced (pretty : Bool) (fs : List Fragment) : Prop where
  tokens : ∀ f ∈ partsAll fs, f.token? ≠ some " "
  branches : pretty = true → ∀ f ∈ partsAll fs, ∀ branch ∈ f.branches,
    leadAll branch ≠ .indented

instance (pretty : Bool) (fs : List Fragment) : Decidable (WellSpaced pretty fs) :=
  decidable_of_iff
    ((∀ f ∈ partsAll fs, f.token? ≠ some " ") ∧ (pretty = true → ∀ f ∈ partsAll fs,
      ∀ branch ∈ f.branches, leadAll branch ≠ .indented))
    ⟨fun h => ⟨h.1, h.2⟩, fun h => ⟨h.1, h.2⟩⟩

namespace WellSpaced

variable {pretty : Bool} {f : Fragment} {fs gs : List Fragment}

/-- Part of a well-spaced tree is well spaced. -/
theorem mono (h : WellSpaced pretty fs) (hsub : partsAll gs ⊆ partsAll fs) :
    WellSpaced pretty gs :=
  ⟨fun f hf => h.tokens f (hsub hf), fun hp f hf => h.branches hp f (hsub hf)⟩

theorem nil : WellSpaced pretty [] := ⟨by simp [partsAll], by simp [partsAll]⟩

theorem append (hf : WellSpaced pretty fs) (hg : WellSpaced pretty gs) :
    WellSpaced pretty (fs ++ gs) := by
  constructor
  · intro f hin
    rw [partsAll_append, List.mem_append] at hin
    exact hin.elim (hf.tokens f) (hg.tokens f)
  · intro hp f hin
    rw [partsAll_append, List.mem_append] at hin
    exact hin.elim (hf.branches hp f) (hg.branches hp f)

/-- Puts a fragment in front, given what is inside it as one list. -/
theorem cons (hparts : f.parts = f :: partsAll gs) (htoken : f.token? ≠ some " ")
    (hbranches : ∀ branch ∈ f.branches, leadAll branch ≠ .indented) (hg : WellSpaced pretty gs)
    (h : WellSpaced pretty fs) : WellSpaced pretty (f :: fs) := by
  have hf : WellSpaced pretty [f] := by
    constructor
    · simpa [partsAll, hparts] using ⟨htoken, hg.tokens⟩
    · intro hp
      simpa [partsAll, hparts] using ⟨hbranches, hg.branches hp⟩
  exact hf.append h

theorem tail (h : WellSpaced pretty (f :: fs)) : WellSpaced pretty fs :=
  h.mono (by simp [partsAll])

theorem children {indented : Bool} (h : WellSpaced pretty (.group indented gs :: fs)) :
    WellSpaced pretty gs :=
  h.mono fun f hf => by simp [partsAll, parts, hf]

theorem branch (h : WellSpaced pretty (f :: fs)) (hg : gs ∈ f.branches) :
    WellSpaced pretty gs :=
  h.mono (partsAll_subset_of_branch hg)

/-- A branch at the front does not begin with an indented group. -/
theorem leadAll_branch (h : WellSpaced pretty (f :: fs)) (hg : gs ∈ f.branches)
    (hp : pretty = true) : leadAll gs ≠ .indented := by
  refine h.branches hp f ?_ gs hg
  cases f <;> simp [partsAll, parts]

theorem token_ne (h : WellSpaced pretty (f :: fs)) : f.token? ≠ some " " := by
  refine h.tokens f ?_
  cases f <;> simp [partsAll, parts]

end WellSpaced

end Fragment

end PreparedSql
