import PreparedSql.Proofs.Layout.Pieces
import PreparedSql.Proofs.Template.Fronts
import PreparedSql.Proofs.Template.Markers

/-!
# Templates in a single line and with lines broken

An execution takes the same steps whether lines are broken or not, and the texts it shows do not
depend on it. Taken on two pages at once, one for each layout, the steps of a well-spaced template
keep the pages in step, so the two texts show the same pieces.

An indented group moves the empty line that was begun before it. A row of a repetition starts over
without a line break of its own, so it must write something before it opens a group.

What separates the rows of a repetition ends in a space, which a row may take back that closes a
parenthesis first. Where no row looks back, the separators are shown as they are. A row is then laid
out as on pages of its own, behind a separator after which the pages need not decide alike.
-/

namespace PreparedSql

open Page (Level InStep Anchored Alike)

namespace Step

/-- The text that a step shows, if it shows any. -/
def shown? (spell : Marker → String) : Step → Option String
  | .token s | .delimiter s _ | .write s => some s
  | .marker m => some (spell m)
  | _ => none

/-- The texts that steps show, in order. -/
def shown (spell : Marker → String) (steps : List Step) : List String :=
  steps.filterMap (shown? spell)

/-- The pieces that a step shows. The texts in `whole`, where they are written as they are, keep the
spaces at their end. -/
def cut (whole : List String) (spell : Marker → String) : Step → List String
  | .token s | .delimiter s _ => Text.pieces s
  | .write s => if s ∈ whole then [s] else Text.pieces s
  | .marker m => Text.pieces (spell m)
  | _ => []

/-- The pieces that steps show, in order. -/
def pieces (whole : List String) (spell : Marker → String) (steps : List Step) : List String :=
  steps.flatMap (cut whole spell)

@[simp] theorem pieces_cons (whole : List String) (spell : Marker → String) (step : Step)
    (steps : List Step) :
    pieces whole spell (step :: steps) = step.cut whole spell ++ pieces whole spell steps := rfl

@[simp] theorem pieces_append (whole : List String) (spell : Marker → String)
    (steps more : List Step) :
    pieces whole spell (steps ++ more) = pieces whole spell steps ++ pieces whole spell more :=
  List.flatMap_append

/-- Where no text is kept whole, the pieces are those of the texts that are shown. -/
theorem pieces_nil (spell : Marker → String) (steps : List Step) :
    pieces [] spell steps = (shown spell steps).flatMap Text.pieces := by
  induction steps with
  | nil => rfl
  | cons step steps ih =>
    rw [pieces_cons, ih]
    cases step <;> simp [cut, shown, shown?, List.filterMap_cons]

/-- Taken on two pages that are related by `R`, in a single line on the first and with lines
broken on the second, the steps lead to pages that are related by `R'`. -/
def Brings (whole : List String) (spell : Marker → String) (R : List String → Page → Page → Prop)
    (steps : List Step) (R' : List String → Page → Page → Prop) : Prop :=
  ∀ ⦃shown p q⦄, R shown p q →
    R' (shown ++ pieces whole spell steps) (actAll false spell p steps) (actAll true spell q steps)

/-- The steps do the same over any text, and show something. -/
def StandAlone (whole : List String) (spell : Marker → String) (steps : List Step) : Prop :=
  (∀ pretty, Local pretty spell steps) ∧ pieces whole spell steps ≠ []

namespace Brings

variable {whole : List String} {spell : Marker → String}
  {R R' R'' : List String → Page → Page → Prop} {step : Step} {steps more : List Step}

theorem nil : Brings whole spell R [] R := by
  intro shown p q hR
  simpa [pieces] using hR

theorem append (h : Brings whole spell R steps R') (h' : Brings whole spell R' more R'') :
    Brings whole spell R (steps ++ more) R'' := by
  intro shown p q hR
  have hend := h' (h hR)
  simpa [actAll_append] using hend

theorem cons (h : Brings whole spell R [step] R') (h' : Brings whole spell R' steps R'') :
    Brings whole spell R (step :: steps) R'' := h.append h'

theorem mono (h : Brings whole spell R steps R')
    (hR : ∀ {shown p q}, R' shown p q → R'' shown p q) : Brings whole spell R steps R'' :=
  fun _ _ _ hstart => hR (h hstart)

theorem of_imp (hR : ∀ {shown p q}, R shown p q → R' shown p q)
    (h : Brings whole spell R' steps R'') : Brings whole spell R steps R'' :=
  fun _ _ _ hstart => h (hR hstart)

/-- A step that shows nothing. -/
theorem silent (hcut : step.cut whole spell = [])
    (h : ∀ {shown p q}, R shown p q → R' shown (act false spell p step) (act true spell q step)) :
    Brings whole spell R [step] R' := by
  intro shown p q hR
  simpa [pieces, hcut] using h hR

/-- A step that shows a text. -/
theorem showing {s : String} (hcut : step.cut whole spell = Text.pieces s)
    (h : ∀ {shown p q}, R shown p q →
      R' (shown ++ Text.pieces s) (act false spell p step) (act true spell q step)) :
    Brings whole spell R [step] R' := by
  intro shown p q hR
  simpa [pieces, hcut] using h hR

theorem gap : Brings whole spell InStep [.gap] InStep := silent rfl InStep.gap

theorem fresh : Brings whole spell Level [.fresh] InStep := silent rfl Level.fresh

theorem settle (glued : Bool) : Brings whole spell Level [.settle glued] Anchored :=
  silent rfl (Level.settle · glued)

/-- What fills a hole or a cell is written as it is. -/
theorem supply (h : step.supplies = true) (hwhole : ∀ s, step = .write s → s ∉ whole) :
    Brings whole spell Level [step] Level := by
  cases step with
  | write s => exact showing (if_neg (hwhole s rfl)) (Level.write · s)
  | marker m => exact showing rfl (Level.write · (spell m))
  | missing what => exact silent rfl id
  | _ => simp [Step.supplies] at h

/-- A text that is kept whole. -/
theorem separate {s : String} (hs : s ∈ whole) (hne : s ≠ "") :
    Brings whole spell Level [.write s] Alike := by
  intro shown p q hlevel
  have hwritten : Alike (shown ++ [s]) (p.write s) (q.write s) := hlevel.alike.write hne
  simpa [pieces, cut, hs, act] using hwritten

/-- Steps that stand alone do behind any text what they do on pages of their own. -/
theorem standAlone (h : Brings whole spell InStep steps Level)
    (halone : StandAlone whole spell steps) : Brings whole spell Alike (.fresh :: steps) Level := by
  intro shown p q halike
  obtain ⟨hlocal, hne⟩ := halone
  have hown : Level ([] ++ pieces whole spell steps) (actAll false spell p.fresh.cleared steps)
      (actAll true spell q.fresh.cleared steps) := h (Page.inStep_cleared rfl)
  have hboth := hown.atop hne halike
  rw [← hlocal false, ← hlocal true] at hboth
  exact hboth

end Brings

end Step

namespace Fragment

open Step (Brings)

/-- However an execution goes through the fragments, the pages stay in step. A leading group needs
the break of an empty line to stand after the last piece, and anything that is written first sees
to it for what follows. -/
structure KeepsStep (whole : List String) (spell : Marker → String) (a : Arguments)
    (q : QuoteMark) (row : Option RowAt) (fs : List Fragment) : Prop where
  anchored : Brings whole spell Anchored (walkAll a q row fs) Anchored
  inStep : leadAll fs ≠ .indented → Brings whole spell InStep (walkAll a q row fs) InStep
  anchoring : leadAll fs = .content → Brings whole spell InStep (walkAll a q row fs) Anchored

namespace KeepsStep

variable {whole : List String} {spell : Marker → String} {a : Arguments} {q : QuoteMark}
  {row : Option RowAt} {f : Fragment} {fs : List Fragment}

theorem nil : KeepsStep whole spell a q row [] where
  anchored := .nil
  inStep _ := .nil
  anchoring hlead := nomatch hlead

theorem leadAll_singleton (f : Fragment) : leadAll [f] = lead f := by
  cases hlead : lead f <;> simp [leadAll, hlead, Lead.orElse]

theorem cons (hf : KeepsStep whole spell a q row [f]) (hfs : KeepsStep whole spell a q row fs) :
    KeepsStep whole spell a q row (f :: fs) := by
  have hwalk : walkAll a q row (f :: fs) = walkAll a q row [f] ++ walkAll a q row fs :=
    walkAll_append a q row [f] fs
  have hlead := leadAll_singleton f
  have hleads : leadAll (f :: fs) = (lead f).orElse (leadAll fs) := rfl
  constructor
  · rw [hwalk]
    exact hf.anchored.append hfs.anchored
  · intro hne
    rw [hwalk]
    cases hfirst : lead f with
    | nothing =>
      rw [hleads, hfirst] at hne
      exact (hf.inStep (by simp [hlead, hfirst])).append (hfs.inStep hne)
    | content =>
      exact (hf.anchoring (hlead.trans hfirst)).append (hfs.anchored.mono Anchored.inStep)
    | indented => exact absurd (by rw [hleads, hfirst]; rfl) hne
  · intro hcontent
    rw [hwalk]
    cases hfirst : lead f with
    | nothing =>
      rw [hleads, hfirst] at hcontent
      exact (hf.inStep (by simp [hlead, hfirst])).append (hfs.anchoring hcontent)
    | content => exact (hf.anchoring (hlead.trans hfirst)).append hfs.anchored
    | indented =>
      rw [hleads, hfirst] at hcontent
      cases hcontent

/-- A fragment after which the line is not empty. -/
theorem of_anchoring (h : Brings whole spell InStep (walk a q row f) Anchored) :
    KeepsStep whole spell a q row [f] := by
  have hwalk : walkAll a q row [f] = walk a q row f := by simp [walkAll]
  rw [← hwalk] at h
  exact ⟨.of_imp Anchored.inStep h, fun _ => h.mono Anchored.inStep, fun _ => h⟩

theorem text (s : String) : KeepsStep whole spell a q row [.text s] where
  anchored := .showing rfl (Anchored.token · s)
  inStep _ := .showing rfl (InStep.token · s)
  anchoring hlead := .showing rfl fun h => h.token_anchored fun hs => by
    simp [hs, leadAll, lead, Lead.orElse] at hlead

theorem delimiter (s : String) (kind : DelimiterKind) :
    KeepsStep whole spell a q row [.delimiter s kind] where
  anchored := .showing rfl fun h => (h.token s).delimiter kind
  inStep _ := .showing rfl fun h => h.delimiter s kind
  anchoring hlead := .showing rfl fun h => (h.token_anchored fun hs => by
    simp [hs, leadAll, lead, Lead.orElse] at hlead).delimiter kind

theorem group {children : List Fragment} (h : KeepsStep whole spell a q row children)
    (indented : Bool) : KeepsStep whole spell a q row [.group indented children] := by
  cases indented with
  | false =>
    have hwalk : walkAll a q row [.group false children] = walkAll a q row children := by
      simp [walkAll, walk]
    have hlead : leadAll [.group false children] = leadAll children := leadAll_singleton _
    constructor
    · rw [hwalk]
      exact h.anchored
    · intro hne
      rw [hwalk]
      exact h.inStep (hlead ▸ hne)
    · intro hcontent
      rw [hwalk]
      exact h.anchoring (hlead ▸ hcontent)
  | true =>
    refine ⟨?_, fun hne => absurd rfl hne, fun hcontent => by cases hcontent⟩
    have henter : Brings whole spell Anchored [.enter] Anchored := .silent rfl Anchored.enter
    have hexit : Brings whole spell Anchored [.exit] Anchored := .silent rfl Anchored.exit
    have hwalk : walkAll a q row [.group true children] =
        [.enter] ++ (walkAll a q row children ++ [.exit]) := by
      simp [walkAll, walk]
    rw [hwalk]
    exact henter.append (h.anchored.append hexit)

/-- A fragment that writes one supplied text after a gap. -/
theorem supply {glued : Bool} {step : Step} (hsupplies : step.supplies = true)
    (hwhole : ∀ s, step = .write s → s ∉ whole)
    (hwalk : walk a q row f = [.gap, step, .settle glued]) :
    KeepsStep whole spell a q row [f] := by
  refine of_anchoring ?_
  rw [hwalk]
  exact (Brings.gap.mono InStep.level).cons
    ((Brings.supply hsupplies hwhole).cons (.settle glued))

/-- Only the branch that is chosen counts. -/
theorem choice {key : Key} {main alternative : List Fragment}
    (hmain : a.alternative key = false → KeepsStep whole spell a q row main)
    (halternative : a.alternative key = true → KeepsStep whole spell a q row alternative)
    (hlead : leadAll main ≠ .indented) (hlead' : leadAll alternative ≠ .indented) :
    KeepsStep whole spell a q row [.choice key main alternative] := by
  refine of_anchoring ?_
  simp only [walk]
  refine Brings.append ?_ (.settle false)
  cases hkey : a.alternative key with
  | true => exact ((halternative hkey).inStep hlead').mono InStep.level
  | false => exact ((hmain hkey).inStep hlead).mono InStep.level

/-- Each row of a repetition starts over on both pages. If the rows are separated by a text that is
kept whole, they have to stand alone. -/
theorem each {key : Key} {body empty : List Fragment} {between : String}
    (hbody : ∀ index cells, (a.rows key)[index]? = some cells →
      KeepsStep whole spell a q (some ⟨key, index, cells⟩) body)
    (hempty : a.rows key = [] → KeepsStep whole spell a q row empty)
    (hlead : leadAll body ≠ .indented) (hlead' : leadAll empty ≠ .indented)
    (halone : between ∈ whole → between ≠ "" ∧
      ∀ index cells, (a.rows key)[index]? = some cells →
        Step.StandAlone whole spell (walkAll a q (some ⟨key, index, cells⟩) body)) :
    KeepsStep whole spell a q row [.each key body empty between] := by
  have once {row : Option RowAt} {fs : List Fragment} (h : KeepsStep whole spell a q row fs)
      (hfs : leadAll fs ≠ .indented) :
      Brings whole spell Level (.fresh :: walkAll a q row fs) Level :=
    Brings.fresh.cons ((h.inStep hfs).mono InStep.level)
  have hrows : Brings whole spell Level (repeated a q row key body empty between) Level := by
    unfold repeated
    cases hkey : a.rows key with
    | nil => exact once (hempty hkey) hlead'
    | cons first rest =>
      rw [hkey] at hbody halone
      -- Behind a separator that is kept whole, the pages are alike and nothing more.
      obtain ⟨R, hlevel, hbetween, hrow⟩ : ∃ R : List String → Page → Page → Prop,
          (∀ {shown p q}, Level shown p q → R shown p q) ∧
          Brings whole spell Level [.write between] R ∧
          ∀ index cells, (first :: rest)[index]? = some cells → Brings whole spell R
            (.fresh :: walkAll a q (some ⟨key, index, cells⟩) body) Level := by
        by_cases hin : between ∈ whole
        · obtain ⟨hne, hstand⟩ := halone hin
          refine ⟨Alike, Level.alike, .separate hin hne, fun index cells hcells => ?_⟩
          exact Brings.standAlone (((hbody index cells hcells).inStep hlead).mono InStep.level)
            (hstand index cells hcells)
        · refine ⟨Level, id, .supply rfl ?_, fun index cells hcells => ?_⟩
          · rintro _ ⟨⟩
            exact hin
          · exact once (hbody index cells hcells) hlead
      refine .of_imp hlevel ?_
      exact intercalate_mapIdx_pred (S := fun steps => Brings whole spell R steps Level)
        (fun h h' => (h.append hbetween).append h') (by simp) hrow
  refine of_anchoring ?_
  rw [walk_each]
  exact ((Brings.gap.mono InStep.level).cons hrows).append (.settle false)

end KeepsStep

/-! ## Whole separators -/

/-- What makes it possible to keep texts whole: nothing is missing, no supplied text is taken for
one of them, and all rows show something and do not look back. -/
structure Fits (whole : List String) (spell : Marker → String) (a : Arguments) (q : QuoteMark)
    (row : Option RowAt) (fs : List Fragment) : Prop where
  solid : "" ∉ whole
  marker : ∀ m, Text.pieces (spell m) ≠ []
  hole : ∀ (h : Hole) s, h.step a q = .write s → s ∉ whole
  cell : ∀ row, RowAt.Held a row → ∀ index s, RowAt.step row index = .write s →
    s ∉ whole ∧ Text.pieces s ≠ []
  held : RowAt.Held a row
  apart : RowsApart fs
  complete : Complete (walkAll a q row fs)

namespace Fits

variable {whole : List String} {spell : Marker → String} {a : Arguments} {q : QuoteMark}
  {row : Option RowAt} {f : Fragment} {fs gs : List Fragment} {key : Key}
  {main alternative body empty : List Fragment} {between : String}

/-- What an execution goes through on its way. -/
theorem part {row' : Option RowAt} (h : Fits whole spell a q row fs)
    (hsub : partsAll gs ⊆ partsAll fs) (hheld : RowAt.Held a row')
    (hsteps : walkAll a q row' gs ⊆ walkAll a q row fs) : Fits whole spell a q row' gs :=
  { h with
    held := hheld
    apart := h.apart.mono hsub
    complete := fun step hstep => h.complete step (hsteps hstep) }

theorem tail (h : Fits whole spell a q row (f :: fs)) : Fits whole spell a q row fs :=
  h.part (by simp [partsAll]) h.held (by simp [walkAll])

theorem children {indented : Bool} (h : Fits whole spell a q row (.group indented gs :: fs)) :
    Fits whole spell a q row gs := by
  refine h.part (fun f hf => by simp [partsAll, parts, hf]) h.held fun step hstep => ?_
  cases indented <;> simp [walkAll, walk, hstep]

theorem branch_main (h : Fits whole spell a q row (.choice key main alternative :: fs))
    (hkey : a.alternative key = false) : Fits whole spell a q row main :=
  h.part (partsAll_subset_of_branch (by simp [branches])) h.held
    fun step hstep => by simp [walkAll, walk, hkey, hstep]

theorem branch_alternative (h : Fits whole spell a q row (.choice key main alternative :: fs))
    (hkey : a.alternative key = true) : Fits whole spell a q row alternative :=
  h.part (partsAll_subset_of_branch (by simp [branches])) h.held
    fun step hstep => by simp [walkAll, walk, hkey, hstep]

theorem branch_empty (h : Fits whole spell a q row (.each key body empty between :: fs))
    (hrows : a.rows key = []) : Fits whole spell a q row empty :=
  h.part (partsAll_subset_of_branch (by simp [branches])) h.held
    fun step hstep => by simp [walkAll, walk_each, repeated, hrows, hstep]

theorem branch_row (h : Fits whole spell a q row (.each key body empty between :: fs)) {index : Nat}
    {cells : List Cell} (hcells : (a.rows key)[index]? = some cells) :
    Fits whole spell a q (some ⟨key, index, cells⟩) body := by
  refine h.part (partsAll_subset_of_branch (by simp [branches])) ?_ fun step hstep => ?_
  · rintro _ ⟨⟩
    exact hcells
  · have hrepeated : step ∈ repeated a q row key body empty between := by
      unfold repeated
      cases hrows : a.rows key with
      | nil => simp [hrows] at hcells
      | cons first rest =>
        obtain ⟨hindex, rfl⟩ := List.getElem?_eq_some_iff.1 (hrows ▸ hcells)
        exact mem_intercalate_of_mem (List.mem_mapIdx.2 ⟨index, hindex, rfl⟩)
          (List.mem_cons_of_mem _ hstep)
    simp [walkAll, walk_each, hrepeated]

/-- A row stands alone: it does not look back, and its cell is shown. -/
theorem standAlone (h : Fits whole spell a q row fs) (hfront : frontAll fs ≠ .reaching)
    (hcell : ∃ index, .cell index ∈ fs) : Step.StandAlone whole spell (walkAll a q row fs) := by
  refine ⟨fun pretty => (describes_walkAll row fs hfront).1, ?_⟩
  obtain ⟨index, hindex⟩ := hcell
  have hstep : RowAt.step row index ∈ walkAll a q row fs := by
    obtain ⟨before, after, rfl⟩ := List.append_of_mem hindex
    simp [walkAll, walk]
  have hcut : (RowAt.step row index).cut whole spell ≠ [] := by
    cases hsupplied : RowAt.step row index with
    | write s =>
      obtain ⟨hwhole, hpieces⟩ := h.cell row h.held index s hsupplied
      simpa [Step.cut, hwhole] using hpieces
    | marker m => exact h.marker m
    | missing what =>
      have hcomplete := h.complete _ hstep
      simp [hsupplied, Step.missing?] at hcomplete
    | _ =>
      have hsupplies := RowAt.supplies_step row index
      simp [hsupplied, Step.supplies] at hsupplies
  intro hnone
  exact hcut (List.flatMap_eq_nil_iff.1 hnone _ hstep)

end Fits

/-- The fragments of a well-spaced tree keep the pages in step. -/
theorem KeepsStep.of_wellSpaced {whole : List String} {spell : Marker → String} {a : Arguments}
    {q : QuoteMark} {row : Option RowAt} {fs : List Fragment} (h : WellSpaced true fs)
    (hfits : whole ≠ [] → Fits whole spell a q row fs) : KeepsStep whole spell a q row fs := by
  induction fs using listInduction generalizing row with
  | nil => exact nil
  | text s fs ih => exact (text s).cons (ih h.tail fun hne => (hfits hne).tail)
  | delimiter s kind fs ih =>
    exact (delimiter s kind).cons (ih h.tail fun hne => (hfits hne).tail)
  | group indented children fs inner ih =>
    exact ((inner h.children fun hne => (hfits hne).children).group indented).cons
      (ih h.tail fun hne => (hfits hne).tail)
  | hole hole fs ih =>
    refine (supply (hole.supplies_step a q) ?_ rfl).cons (ih h.tail fun hne => (hfits hne).tail)
    exact fun s hs hin => (hfits (List.ne_nil_of_mem hin)).hole hole s hs hin
  | choice key main alternative fs main' alternative' ih =>
    refine (choice
      (fun hkey => main' (h.branch ?_) fun hne => (hfits hne).branch_main hkey)
      (fun hkey => alternative' (h.branch ?_) fun hne => (hfits hne).branch_alternative hkey)
      (h.leadAll_branch ?_ rfl) (h.leadAll_branch ?_ rfl)).cons
      (ih h.tail fun hne => (hfits hne).tail) <;> simp [branches]
  | each key body empty between fs body' empty' ih =>
    refine (each
      (fun index cells hcells => body' (h.branch ?_) fun hne => (hfits hne).branch_row hcells)
      (fun hrows => empty' (h.branch ?_) fun hne => (hfits hne).branch_empty hrows)
      (h.leadAll_branch ?_ rfl) (h.leadAll_branch ?_ rfl) fun hin => ?_).cons
      (ih h.tail fun hne => (hfits hne).tail)
    · simp [branches]
    · simp [branches]
    · simp [branches]
    · simp [branches]
    · have hall := hfits (List.ne_nil_of_mem hin)
      obtain ⟨hfront, -, hcell⟩ := hall.apart key body empty between (by simp [partsAll, parts])
      exact ⟨fun hempty => hall.solid (hempty ▸ hin),
        fun index cells hcells => (hall.branch_row hcells).standAlone hfront hcell⟩
  | cell index fs ih =>
    refine (supply (RowAt.supplies_step row index) ?_ rfl).cons
      (ih h.tail fun hne => (hfits hne).tail)
    intro s hs hin
    have hall := hfits (List.ne_nil_of_mem hin)
    exact (hall.cell row hall.held index s hs).1 hin

end Fragment

/-- Two results of an execution that differ in layout only: the same failure, or the same values
and texts that show the same pieces. -/
def SameButLayout (pieces : List String) : Except Failure Sql → Except Failure Sql → Prop
  | .ok compact, .ok pretty =>
    compact.params = pretty.params ∧ LaidOut pieces compact.text pretty.text
  | .error failure, .error failure' => failure = failure'
  | _, _ => False

namespace Template

/-- The texts that an execution shows, in order. -/
def shown (t : Template) (a : Arguments) : List String := Step.shown (t.spell a) (t.steps a)

/-- The template with lines broken or not. -/
def withPretty (t : Template) (pretty : Bool) : Template :=
  { t with format := { t.format with pretty } }

/-- Breaking lines changes nothing but the layout of what an execution gives. -/
theorem fill_withPretty {t : Template} (h : Fragment.WellSpaced true t.fragments) (a : Arguments)
    (whole : List String)
    (hfits : whole ≠ [] → Complete (t.steps a) →
      Fragment.Fits whole (t.spell a) a t.format.quote none t.fragments) :
    SameButLayout (Step.pieces whole (t.spell a) (t.steps a)) ((t.withPretty false).fill a)
      ((t.withPretty true).fill a) := by
  have hsteps (pretty : Bool) : (t.withPretty pretty).steps a = t.steps a := rfl
  cases hmissing : (t.steps a).findSome? Step.missing? with
  | some what =>
    rw [fill_of_missing ((hsteps false).symm ▸ hmissing),
      fill_of_missing ((hsteps true).symm ▸ hmissing)]
    rfl
  | none =>
    rw [fill_of_complete ((hsteps false).symm ▸ hmissing),
      fill_of_complete ((hsteps true).symm ▸ hmissing)]
    have hcomplete : Complete (t.steps a) := List.findSome?_eq_none_iff.1 hmissing
    have hkeeps : Fragment.KeepsStep whole (t.spell a) a t.format.quote none t.fragments :=
      .of_wellSpaced h fun hne => hfits hne hcomplete
    exact ⟨rfl, (hkeeps.anchored Page.anchored_start).inStep.level.alike⟩

end Template

end PreparedSql
