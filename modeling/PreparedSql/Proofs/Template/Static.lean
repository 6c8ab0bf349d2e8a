import PreparedSql.Proofs.Template.Fixpoint

/-!
# Static templates

Without open fragments, an execution supplies nothing that a template could show. What is written
is then decided by the fragments alone, and it is the text that condensing collects: both passes lay
the same tokens, delimiters and groups out on an empty page. Condensing hands the text over as a
whole, and writing it again adds nothing to it and takes nothing back.
-/

namespace PreparedSql

namespace Page

/-- On an empty page there is nothing to keep a text apart from, and nothing to take back. -/
theorem room_empty (ink : List Char) : ({} : Page).room ink = [] := by
  unfold room
  split
  · rfl
  · unfold makeRoom
    split <;> rfl

/-- A collected text comes out as it is. -/
theorem text_token_empty (p : Page) : (({} : Page).token p.text).text = p.text := by
  have hink : (({} : Page).token p.text).ink = p.ink := by
    rw [token_text_ink, room_empty, List.append_nil]
  rw [text, hink]
  rfl

theorem text_eq_empty_iff {p : Page} : p.text = "" ↔ p.ink = [] := by
  simp [text, ← String.toList_inj]

/-- The text that is collected is all that the page shows. -/
theorem collected_eq_ite (p : Page) : p.collected = if p.text = "" then [] else [.text p.text] := by
  simp [collected, text_eq_empty_iff]

end Page

namespace Fragment

variable {fs : List Fragment}

theorem allStatic_append (fs gs : List Fragment) :
    allStatic (fs ++ gs) = (allStatic fs && allStatic gs) := by
  simp [allStatic_eq_all]

theorem allStatic_collected (p : Page) : allStatic p.collected = true := by
  unfold Page.collected
  split <;> rfl

/-- Open fragments stay, and no fragment becomes open. -/
theorem allStatic_condenseAll (pretty : Bool) (p : Page) (fs : List Fragment) :
    allStatic (condenseAll pretty p fs).1 = allStatic fs := by
  induction fs using listInduction generalizing p with
  | nil => rfl
  | text s fs ih => exact ih (p.token s)
  | delimiter s kind fs ih => exact ih (p.delimiter pretty s kind)
  | group indented children fs inner ih =>
    cases indented <;> simp [condenseAll, condense, allStatic_append, allStatic, isStatic, inner, ih]
  | hole h fs ih | cell index fs ih =>
    simp [condenseAll, condense, allStatic_append, allStatic, isStatic, isOpen]
  | choice key main alternative fs _ _ ih =>
    simp [condenseAll, condense_choice, allStatic_append, allStatic, isStatic, isOpen]
  | each key body empty between fs _ _ ih =>
    simp [condenseAll, condense_each, allStatic_append, allStatic, isStatic, isOpen]

/-- What a pass over static fragments does, whichever execution it is for: it asks for nothing,
hands nothing over, and the page it writes is the page that condensing collects. -/
structure Constant (fs : List Fragment) : Prop where
  demands : ∀ a q row, Step.demands (walkAll a q row fs) = []
  done : ∀ pretty p, (condenseAll pretty p fs).1 = []
  page : ∀ pretty spell a q row p,
    Step.actAll pretty spell p (walkAll a q row fs) = (condenseAll pretty p fs).2

theorem constant_of_allStatic (h : allStatic fs = true) : Constant fs := by
  induction fs using listInduction with
  | nil => exact ⟨fun _ _ _ => rfl, fun _ _ => rfl, fun _ _ _ _ _ _ => rfl⟩
  | text s fs ih =>
    have rest := ih h
    exact ⟨rest.demands, fun pretty p => rest.done pretty (p.token s),
      fun pretty spell a q row p => rest.page pretty spell a q row (p.token s)⟩
  | delimiter s kind fs ih =>
    have rest := ih h
    exact ⟨rest.demands, fun pretty p => rest.done pretty (p.delimiter pretty s kind),
      fun pretty spell a q row p => rest.page pretty spell a q row (p.delimiter pretty s kind)⟩
  | group indented children fs inner ih =>
    simp only [allStatic, isStatic, Bool.and_eq_true] at h
    have children := inner h.1
    have rest := ih h.2
    cases indented with
    | false =>
      constructor
      · intro a q row
        simp [walkAll, walk, children.demands, rest.demands]
      · intro pretty p
        simp [condenseAll, condense, children.done, rest.done]
      · intro pretty spell a q row p
        simp [walkAll, walk, condenseAll, condense, Step.actAll_append, children.page, rest.page]
    | true =>
      constructor
      · intro a q row
        simp [walkAll, walk, Step.demands_cons, Step.asks, Step.marker?, Step.missing?,
          children.demands, rest.demands]
      · intro pretty p
        simp [condenseAll, condense, children.done, rest.done]
      · intro pretty spell a q row p
        simp [walkAll, walk, condenseAll, condense, Step.actAll_append, Step.act, children.page,
          rest.page]
  | hole | choice | each | cell => simp [allStatic, isStatic, isOpen] at h

end Fragment

namespace Template

open Fragment

/-- The text that condensing collects from all of a template. -/
def collectedText (t : Template) : String := (condenseAll t.format.pretty {} t.fragments).2.text

variable {t : Template}

/-- Whatever the arguments, an execution writes the collected text and binds nothing. -/
theorem fill_of_isStatic (h : t.isStatic = true) (a : Arguments) :
    t.fill a = .ok ⟨t.collectedText, []⟩ := by
  have hconstant := constant_of_allStatic h
  have hdemands : Step.demands (t.steps a) = [] := hconstant.demands a t.format.quote none
  have hmissing : (t.steps a).findSome? Step.missing? = none := by
    rw [← Step.findSome?_demands, hdemands]
    rfl
  have hbound : t.bound a = [] := by
    rw [bound, ← Step.markers_demands, hdemands]
    unfold Marker.bound
    split <;> rfl
  have htext (ordinal : Nat → Nat) : t.textWith a ordinal = t.collectedText :=
    congrArg Page.text (hconstant.page t.format.pretty _ a t.format.quote none {})
  simp [fill, fillInto, hmissing, hbound, htext, Sink.append, Sink.list]

theorem isStatic_condense (t : Template) : t.condense.isStatic = t.isStatic := by
  unfold condense
  split
  · rfl
  · simp [isStatic, Fragment.condensed, allStatic_append, allStatic_condenseAll, allStatic_collected]

/-- All of a static template is collected into one text. -/
theorem fragments_condense_of_isStatic (h : t.isStatic = true) (hcondensed : t.condensed = false) :
    t.condense.fragments = (condenseAll t.format.pretty {} t.fragments).2.collected := by
  have hdone := (constant_of_allStatic h).done t.format.pretty {}
  simp [condense, hcondensed, Fragment.condensed, hdone]

/-- Condensing collects the text once more, and it stays as it is. -/
theorem collectedText_condense (h : t.isStatic = true) (hcondensed : t.condensed = false) :
    t.condense.collectedText = t.collectedText := by
  rw [collectedText, fragments_condense_of_isStatic h hcondensed, condenseAll_collected]
  exact Page.text_token_empty _

/-- A template is static if and only if its condensed form is. All executions of the two then
succeed with one text and no values, and the condensed form is that text, or nothing if it is
empty. -/
theorem static_constant (t : Template) (hcondensed : t.condensed = false) :
    t.isStatic = t.condense.isStatic ∧
      (t.isStatic = true → ∃ text : String,
        (∀ a, t.fill a = .ok ⟨text, []⟩) ∧ (∀ a, t.condense.fill a = .ok ⟨text, []⟩) ∧
          t.condense.fragments = if text = "" then [] else [.text text]) := by
  refine ⟨(isStatic_condense t).symm, fun h => ⟨t.collectedText, fill_of_isStatic h, ?_, ?_⟩⟩
  · intro a
    rw [fill_of_isStatic (by rwa [isStatic_condense]), collectedText_condense h hcondensed]
  · rw [fragments_condense_of_isStatic h hcondensed, Page.collected_eq_ite]
    rfl

/-- Groups inside a group, the innermost of them empty, and a parenthesis that takes back the space
before it. -/
theorem static_constant_nested :
    let t : Template :=
      ⟨[.text "SELECT", .group true [.text "a", .delimiter "," .column, .group false [.text "f( "],
        .text ")", .group true [.group true []]], .delimiter "" .row, .text "FROM t"],
        ⟨.dollar, .double, true⟩, false⟩
    t.isStatic = true ∧
      ∃ text : String, (∀ a, t.fill a = .ok ⟨text, []⟩) ∧ (∀ a, t.condense.fill a = .ok ⟨text, []⟩) ∧
        t.condense.fragments = if text = "" then [] else [.text text] := by
  intro t
  have hstatic : t.isStatic = true := by decide
  exact ⟨hstatic, (static_constant t rfl).2 hstatic⟩

end Template

end PreparedSql
