import PreparedSql.Proofs.Layout.Ink
import PreparedSql.Proofs.Template.Steps

/-!
# Text with open markers

Layout must not depend on how markers are spelled: a statement with numbered
markers is broken and spaced like the same statement with positional ones. To say
so, a text is taken apart into glyphs, each a character or a whole marker, and a
spelling turns glyphs into text.

An operation of a page is *blind* when it does the same to glyphs under all
*solid* spellings, those that do not end in a blank. All operations of a page
are, so a whole run of steps comes down to a single list of glyphs. The two that
look back are the reason for solidity: they stop at a marker as they stop at any
other word.
-/

namespace PreparedSql

/-- A character, or a marker whose spelling is left open. -/
inductive Glyph where
  | char (c : Char)
  | marker (m : Marker)
deriving DecidableEq, Repr

/-- A spelling that ends in a character other than a blank. -/
def Solid (s : String) : Prop := ∃ c, s.toList.getLast? = some c ∧ Text.isBlank c = false

namespace Glyph

def chars (spell : Marker → String) : Glyph → List Char
  | .char c => [c]
  | .marker m => (spell m).toList

/-- The text of glyphs in reading order. -/
def text (spell : Marker → String) (gs : List Glyph) : String :=
  String.ofList (gs.flatMap (chars spell))

def marker? : Glyph → Option Marker
  | .char _ => none
  | .marker m => some m

/-- The markers among glyphs. -/
def markers (gs : List Glyph) : List Marker := gs.filterMap marker?

/-- What glyphs leave on a page. Like the ink of a page, they are listed with the
newest first. -/
def ink (spell : Marker → String) (gs : List Glyph) : List Char :=
  gs.flatMap fun g => (g.chars spell).reverse

section Ink

variable {spell : Marker → String} {gs : List Glyph} {m : Marker}

@[simp] theorem ink_nil : ink spell [] = [] := rfl

@[simp] theorem ink_char (c : Char) : ink spell (.char c :: gs) = c :: ink spell gs := rfl

@[simp] theorem ink_marker :
    ink spell (.marker m :: gs) = (spell m).toList.reverse ++ ink spell gs := rfl

@[simp] theorem ink_append (hs : List Glyph) :
    ink spell (gs ++ hs) = ink spell gs ++ ink spell hs :=
  List.flatMap_append

/-- Plain characters on a page. -/
@[simp] theorem ink_map_char (cs : List Char) : ink spell (cs.map .char) = cs := by
  induction cs with
  | nil => rfl
  | cons c cs ih => simp [ih]

theorem reverse_ink : (ink spell gs).reverse = gs.reverse.flatMap (chars spell) := by
  induction gs with
  | nil => rfl
  | cons g gs ih =>
    have hcons : ink spell (g :: gs) = (g.chars spell).reverse ++ ink spell gs := rfl
    simp [hcons, ih]

@[simp] theorem markers_nil : markers [] = [] := rfl

@[simp] theorem markers_char (c : Char) : markers (.char c :: gs) = markers gs := rfl

@[simp] theorem markers_marker : markers (.marker m :: gs) = m :: markers gs := rfl

@[simp] theorem markers_append (hs : List Glyph) :
    markers (gs ++ hs) = markers gs ++ markers hs :=
  List.filterMap_append

@[simp] theorem markers_map_char (cs : List Char) : markers (cs.map .char) = [] := by
  induction cs with
  | nil => rfl
  | cons c cs ih => simp [ih]

/-- A marker shows a character other than a blank first when looking back. -/
theorem exists_ink_marker (gs : List Glyph) (h : Solid (spell m)) :
    ∃ c rest, Text.isBlank c = false ∧ ink spell (.marker m :: gs) = c :: rest := by
  obtain ⟨c, hc, hblank⟩ := h
  obtain ⟨front, hfront⟩ := List.getLast?_eq_some_iff.1 hc
  exact ⟨c, front.reverse ++ ink spell gs, hblank, by simp [hfront]⟩

end Ink

/-- Looking back from a closing parenthesis, a marker counts as a word. -/
theorem exists_closeUp (gs : List Glyph) :
    ∃ gs', markers gs' = markers gs ∧ ∀ spell, (∀ m ∈ markers gs, Solid (spell m)) →
      Page.closeUp (ink spell gs) = ink spell gs' := by
  match gs with
  | [] => exact ⟨[], rfl, fun _ _ => rfl⟩
  | .marker m :: gs =>
    refine ⟨.marker m :: gs, rfl, fun spell hs => ?_⟩
    obtain ⟨c, rest, hblank, hink⟩ := exists_ink_marker gs (hs m (by simp))
    have hc : c ≠ ' ' := fun h => by simp [h, Text.isBlank] at hblank
    rw [hink]
    simp [Page.closeUp, hc]
  | [.char c] => exact ⟨[.char c], rfl, fun spell _ => by simp [Page.closeUp]⟩
  | .char c :: .char d :: gs =>
    by_cases hback : c = ' ' ∧ Text.isBlank d = false
    · refine ⟨.char d :: gs, rfl, fun spell _ => ?_⟩
      simp [Page.closeUp, hback]
    · refine ⟨.char c :: .char d :: gs, rfl, fun spell _ => ?_⟩
      by_cases hc : c = ' ' <;> simp_all [Page.closeUp]
  | .char c :: .marker m :: gs =>
    by_cases hc : c = ' '
    · refine ⟨.marker m :: gs, rfl, fun spell hs => ?_⟩
      obtain ⟨d, rest, hblank, hink⟩ := exists_ink_marker gs (hs m (by simp))
      rw [ink_char, hink, hc]
      simp [Page.closeUp, hblank]
    · exact ⟨.char c :: .marker m :: gs, rfl, fun spell _ => by simp [Page.closeUp, hc]⟩

/-- Looking back for an empty line ends at a marker. -/
theorem exists_dropWhile (gs : List Glyph) :
    ∃ back, markers back = markers gs ∧ ∀ spell, (∀ m ∈ markers gs, Solid (spell m)) →
      (ink spell gs).dropWhile (· == ' ') = ink spell back := by
  induction gs with
  | nil => exact ⟨[], rfl, fun _ _ => rfl⟩
  | cons g gs ih =>
    cases g with
    | marker m =>
      refine ⟨.marker m :: gs, rfl, fun spell hs => ?_⟩
      obtain ⟨c, rest, hblank, hink⟩ := exists_ink_marker gs (hs m (by simp))
      have hc : c ≠ ' ' := fun h => by simp [h, Text.isBlank] at hblank
      rw [hink]
      simp [hc]
    | char c =>
      by_cases hc : c = ' '
      · obtain ⟨back, hback, hdrop⟩ := ih
        exact ⟨back, hback, fun spell hs => by simpa [hc] using hdrop spell hs⟩
      · exact ⟨.char c :: gs, rfl, fun spell _ => by simp [hc]⟩

/-- A page on which glyphs are written; the rest is taken from `shape`. -/
def page (spell : Marker → String) (gs : List Glyph) (shape : Page) : Page :=
  { shape with ink := ink spell gs }

/-- An operation that does the same under all solid spellings. -/
def Blind (op : Page → Page) : Prop :=
  ∀ gs shape, ∃ gs' shape', markers gs' = markers gs ∧
    ∀ spell, (∀ m ∈ markers gs, Solid (spell m)) → op (page spell gs shape) = page spell gs' shape'

namespace Blind

theorem id : Blind fun p => p := fun gs shape => ⟨gs, shape, rfl, fun _ _ => rfl⟩

theorem comp {op next : Page → Page} (hop : Blind op) (hnext : Blind next) :
    Blind fun p => next (op p) := by
  intro gs shape
  obtain ⟨gs', shape', hmarkers, hpage⟩ := hop gs shape
  obtain ⟨gs'', shape'', hmarkers', hpage'⟩ := hnext gs' shape'
  refine ⟨gs'', shape'', hmarkers'.trans hmarkers, fun spell hs => ?_⟩
  calc
    next (op (page spell gs shape)) = next (page spell gs' shape') := by rw [hpage spell hs]
    _ = page spell gs'' shape'' := hpage' spell (hmarkers ▸ hs)

/-- An operation that is not about what is written. -/
theorem set {op : Page → Page}
    (h : ∀ spell gs shape, op (page spell gs shape) = page spell gs (op shape)) : Blind op :=
  fun gs shape => ⟨gs, op shape, rfl, fun spell _ => h spell gs shape⟩

theorem byLine {op other : Page → Page} (hop : Blind op) (hother : Blind other) :
    Blind fun p => if p.lineStart then op p else other p := by
  intro gs shape
  cases hstart : shape.lineStart with
  | true => simpa [page, hstart] using hop gs shape
  | false => simpa [page, hstart] using hother gs shape

theorem makeRoom (first : Char) :
    Blind fun p => { p with ink := Page.makeRoom p.tail first p.ink } := by
  intro gs shape
  by_cases hclose : first = ')'
  · obtain ⟨gs', hmarkers, hink⟩ := exists_closeUp gs
    exact ⟨gs', shape, hmarkers, fun spell hs => by
      simp [page, Page.makeRoom, hclose, hink spell hs]⟩
  · by_cases hword : shape.tail = .word ∧ Page.attaches first = false
    · exact ⟨.char ' ' :: gs, shape, rfl, fun spell _ => by
        simp [page, Page.makeRoom, hclose, hword]⟩
    · refine ⟨gs, shape, rfl, fun spell _ => ?_⟩
      have hroom (ink : List Char) : Page.makeRoom shape.tail first ink = ink := by
        simp_all [Page.makeRoom]
      simp only [page, hroom]

theorem write (s : String) : Blind (·.write s) := by
  intro gs shape
  refine ⟨s.toList.reverse.map .char ++ gs, shape, ?_, fun spell _ => ?_⟩
  · rw [markers_append, markers_map_char, List.nil_append]
  · simp only [page, Page.write, ink_append, ink_map_char]

theorem token (s : String) : Blind (·.token s) := by
  cases hs : s.toList with
  | nil => simpa only [Page.token, hs] using Blind.id
  | cons first rest =>
    -- The tail comes from the token itself, which has a character of its own.
    have htail (below : List Char) :
        Tail.ofInk (rest.reverse ++ first :: below) = Tail.ofInk (rest.reverse ++ [first]) := by
      cases rest.reverse <;> rfl
    have hop : (fun p : Page => p.token s) = fun p =>
        { ({ p with ink := Page.makeRoom p.tail first p.ink } : Page).write s with
          tail := .ofInk (rest.reverse ++ [first]), lineStart := false } := by
      funext p
      simp only [Page.token, hs, Page.write, htail, List.reverse_cons, List.append_assoc,
        List.singleton_append]
    rw [hop]
    have hset : Blind fun p =>
        { p with tail := .ofInk (rest.reverse ++ [first]), lineStart := false } :=
      .set fun _ _ _ => rfl
    exact ((makeRoom first).comp (write s)).comp hset

theorem gap : Blind Page.gap := by
  intro gs shape
  by_cases hword : shape.tail = .word
  · exact ⟨.char ' ' :: gs, { shape with tail := .space }, rfl,
      fun spell _ => by simp [page, Page.gap, hword]⟩
  · exact ⟨gs, shape, rfl, fun spell _ => by simp [page, Page.gap, hword]⟩

theorem newline : Blind Page.newline := by
  intro gs shape
  cases hstart : shape.lineStart with
  | true => exact ⟨gs, shape, rfl, fun spell _ => by simp [page, Page.newline, hstart]⟩
  | false =>
    refine ⟨(Page.margin shape.indent).map .char ++ .char '\n' :: gs,
      { shape with tail := .start, lineStart := true }, by simp, fun spell _ => ?_⟩
    simp [page, Page.newline, hstart]

theorem reindent : Blind Page.reindent := by
  intro gs shape
  obtain ⟨back, hmarkers, hdrop⟩ := exists_dropWhile gs
  have keep (h : ∀ spell, (∀ m ∈ markers gs, Solid (spell m)) →
      ∀ rest, ink spell back ≠ '\n' :: rest) :
      ∃ gs' shape', markers gs' = markers gs ∧ ∀ spell, (∀ m ∈ markers gs, Solid (spell m)) →
        (page spell gs shape).reindent = page spell gs' shape' := by
    refine ⟨gs, shape, rfl, fun spell hs => ?_⟩
    unfold Page.reindent
    split
    · next rest hline => exact absurd ((hdrop spell hs).symm.trans hline) (h spell hs rest)
    · rfl
  match back, hmarkers, hdrop, keep with
  | [], _, _, keep => exact keep (by simp)
  | .marker m :: back, hmarkers, _, keep =>
    refine keep fun spell hs rest hline => ?_
    obtain ⟨c, front, hblank, hink⟩ :=
      exists_ink_marker back (hs m (by simp [← hmarkers]))
    obtain ⟨rfl, -⟩ := List.cons.inj (hink.symm.trans hline)
    exact absurd hblank (by decide)
  | .char c :: back, hmarkers, hdrop, keep =>
    by_cases hc : c = '\n'
    · refine ⟨(Page.margin shape.indent).map .char ++ .char '\n' :: back, shape, ?_, ?_⟩
      · simpa using hmarkers
      · intro spell hs
        have hline := hdrop spell hs
        rw [ink_char, hc] at hline
        simp [page, Page.reindent, hline]
    · exact keep fun spell _ rest hline => hc (List.cons.inj hline).1

theorem delimiter (pretty : Bool) (s : String) (kind : DelimiterKind) :
    Blind (·.delimiter pretty s kind) := by
  cases hbreaks : pretty && kind.breaksLine with
  | false => simpa [Page.delimiter, hbreaks] using token s
  | true => simpa [Page.delimiter, hbreaks] using (token s).comp newline

theorem enter (pretty : Bool) : Blind (·.enter pretty) := by
  cases pretty with
  | false => exact Blind.id
  | true =>
    have hset : Blind fun p => { p with indent := p.indent + 1 } := .set fun _ _ _ => rfl
    exact hset.comp newline

theorem exit (pretty : Bool) : Blind (·.exit pretty) := by
  cases pretty with
  | false => exact Blind.id
  | true =>
    have hset : Blind fun p => { p with indent := p.indent - 1 } := .set fun _ _ _ => rfl
    exact hset.comp (byLine reindent newline)

theorem settle (glued : Bool) : Blind (·.settle glued) := .set fun _ _ _ => rfl

theorem fresh : Blind Page.fresh := .set fun _ _ _ => rfl

end Blind

/-- A step adds its marker, if it has one, and is blind otherwise. -/
theorem exists_act (pretty : Bool) (step : Step) (gs : List Glyph) (shape : Page) :
    ∃ gs' shape', markers gs' = step.marker?.toList ++ markers gs ∧
      ∀ spell, (∀ m ∈ markers gs, Solid (spell m)) →
        step.act pretty spell (page spell gs shape) = page spell gs' shape' := by
  cases step with
  | marker m => exact ⟨.marker m :: gs, shape, rfl, fun _ _ => rfl⟩
  | token s => exact Blind.token s gs shape
  | delimiter s kind => exact Blind.delimiter pretty s kind gs shape
  | enter => exact Blind.enter pretty gs shape
  | exit => exact Blind.exit pretty gs shape
  | gap => exact Blind.gap gs shape
  | write s => exact Blind.write s gs shape
  | settle glued => exact Blind.settle glued gs shape
  | fresh => exact Blind.fresh gs shape
  | missing what => exact Blind.id gs shape

/-- A run of steps writes the same glyphs under all spellings that are solid on
its markers. -/
theorem exists_actAll (pretty : Bool) (steps : List Step) (gs : List Glyph) (shape : Page) :
    ∃ gs' shape', markers gs' = (steps.filterMap Step.marker?).reverse ++ markers gs ∧
      ∀ spell, (∀ m ∈ markers gs', Solid (spell m)) →
        Step.actAll pretty spell (page spell gs shape) steps = page spell gs' shape' := by
  induction steps generalizing gs shape with
  | nil => exact ⟨gs, shape, rfl, fun _ _ => rfl⟩
  | cons step steps ih =>
    obtain ⟨mid, midShape, hmid, hact⟩ := exists_act pretty step gs shape
    obtain ⟨gs', shape', hmarkers, hrun⟩ := ih mid midShape
    refine ⟨gs', shape', ?_, fun spell hs => ?_⟩
    · rw [hmarkers, hmid]
      cases hstep : step.marker? <;> simp [hstep]
    · have hgs : ∀ m ∈ markers gs, Solid (spell m) :=
        fun m hm => hs m (by simp [hmarkers, hmid, hm])
      rw [Step.actAll_cons, hact spell hgs, hrun spell hs]

end Glyph

/-- The text of an execution as glyphs, which do not depend on the style of the
markers. -/
theorem Step.exists_glyphs (pretty : Bool) (steps : List Step) :
    ∃ gs, Glyph.markers gs = steps.filterMap Step.marker? ∧
      ∀ spell, (∀ m ∈ steps.filterMap Step.marker?, Solid (spell m)) →
        (Step.actAll pretty spell {} steps).text = Glyph.text spell gs := by
  obtain ⟨gs, shape, hmarkers, hrun⟩ := Glyph.exists_actAll pretty steps [] {}
  rw [Glyph.markers_nil, List.append_nil] at hmarkers
  refine ⟨gs.reverse, ?_, fun spell hs => ?_⟩
  · rw [Glyph.markers, List.filterMap_reverse, ← Glyph.markers, hmarkers, List.reverse_reverse]
  · have hpage := hrun spell fun m hm => hs m (by simpa [hmarkers] using hm)
    rw [show ({} : Page) = Glyph.page spell [] {} from rfl, hpage, Page.text, Glyph.page,
      Glyph.reverse_ink, Glyph.text]

end PreparedSql
