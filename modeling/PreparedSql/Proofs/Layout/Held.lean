import PreparedSql.Proofs.Layout.Ink

/-!
# Holding text back

Condensing lays tokens out on a page that holds them back until the next open
fragment; filling the condensed form writes them as one token on another page.
The result is to be the page on which every token is written at once. The three
pages move in step: the direct page is the filling one with the held text
written over it.

The page that holds text back knows nothing about the text below. It decides as
the direct page does as long as it never holds a lone space, and as long as an
empty line that is to be moved was begun in the held text itself.
-/

namespace PreparedSql

/-- A page written on directly, a page that holds text back, and a page that
receives the held text. -/
structure Layout where
  direct : Page
  held : Page
  filling : Page

namespace Layout

/-- The filling page once it has received the held text. -/
def filled (l : Layout) : Page := l.filling.token l.held.text

/-- The direct page is the filling page with the held text over it, and the next
token meets the same end of line on both. -/
structure InStep (l : Layout) : Prop where
  tail : l.direct.tail = l.held.tail
  indent : l.direct.indent = l.held.indent
  lineStart : l.direct.lineStart = l.held.lineStart
  ink : l.direct.ink = l.filled.ink
  word : l.filled.tail = .word ↔ l.held.tail = .word
  held_ne_space : l.held.ink ≠ [' ']

/-- In pretty printing, the line break of an empty line is still held, unless
nothing is written at all. -/
def Anchored (pretty : Bool) (l : Layout) : Prop :=
  pretty = true → l.direct.lineStart = true →
    l.direct.ink = [] ∨ ∃ rest, l.held.ink.dropWhile (· == ' ') = '\n' :: rest

/-- Hands the held text over. -/
def flush (l : Layout) : Layout := ⟨l.direct, l.held.cleared, l.filled⟩

/-- Applies an operation to the page written on and the page that holds text. -/
def both (l : Layout) (op : Page → Page) : Layout := ⟨op l.direct, op l.held, l.filling⟩

variable {pretty : Bool} {l : Layout}

theorem anchored_of_not_lineStart (h : l.direct.lineStart = false) : Anchored pretty l := by
  intro _ hstart
  simp [h] at hstart

theorem filled_ink (l : Layout) : l.filled.ink = l.held.ink ++ l.filling.room l.held.ink :=
  Page.token_text_ink l.filling l.held

theorem filled_of_nil (h : l.held.ink = []) : l.filled = l.filling :=
  Page.token_text_of_nil l.filling h

theorem filled_tail (h : l.held.ink ≠ []) : l.filled.tail = .ofInk l.held.ink := by
  rw [filled, Page.token_text l.filling l.held h]

/-- Three empty pages. -/
theorem inStep_start : InStep ⟨{}, {}, {}⟩ := by
  constructor <;> simp [filled, Page.text, Page.token]

theorem anchored_start : Anchored pretty ⟨{}, {}, {}⟩ := by
  intro _ _
  exact .inl rfl

namespace InStep

/-- Making room for a token needs only the held text. -/
theorem makeRoom (h : InStep l) (first : Char) :
    Page.makeRoom l.direct.tail first l.direct.ink =
      Page.makeRoom l.held.tail first l.held.ink ++
        l.filling.room (first :: Page.makeRoom l.held.tail first l.held.ink) := by
  rw [h.tail, h.ink, filled_ink]
  by_cases hink : l.held.ink = []
  · -- The held text begins with this token, so the filling page decides in its place.
    have hword := h.word
    rw [filled_of_nil hink] at hword
    rw [hink]
    by_cases hclose : first = ')'
    · subst hclose
      rfl
    · by_cases hsp : l.held.tail = .word && !Page.attaches first
      · have hblank : Page.attaches ' ' = true := by decide
        simp [Page.makeRoom, Page.room, hclose, hsp, hblank]
      · have hsp' : ¬ (l.filling.tail = .word && !Page.attaches first) = true := by
          simpa [hword] using hsp
        simp [Page.makeRoom, Page.room, hclose, hsp, hsp']
  · by_cases hclose : first = ')'
    · subst hclose
      have hlast := Page.getLast?_closeUp l.held.ink
      have hne : Page.closeUp l.held.ink ≠ [] := by
        intro hnil
        rw [hnil, List.getLast?_nil] at hlast
        exact hink (List.getLast?_eq_none_iff.mp hlast.symm)
      have hroom : l.filling.room (')' :: Page.closeUp l.held.ink) = l.filling.room l.held.ink := by
        rw [← Page.room_congr hlast]
        exact Page.room_append hne [')']
      simp only [Page.makeRoom, beq_self_eq_true, if_true, hroom]
      exact Page.closeUp_append hink h.held_ne_space _
    · by_cases hsp : l.held.tail = .word && !Page.attaches first
      · have hroom : l.filling.room (first :: ' ' :: l.held.ink) = l.filling.room l.held.ink :=
          Page.room_append hink [first, ' ']
        simp [Page.makeRoom, hclose, hsp, hroom]
      · have hroom : l.filling.room (first :: l.held.ink) = l.filling.room l.held.ink :=
          Page.room_append hink [first]
        simp [Page.makeRoom, hclose, hsp, hroom]

/-- Tokens can be held back, a lone space apart. -/
theorem token (h : InStep l) {s : String} (hs : s ≠ " ") : InStep (l.both (·.token s)) := by
  cases hl : s.toList with
  | nil => simpa [both, Page.token, hl] using h
  | cons first rest =>
    have hroom := h.makeRoom first
    have htail (ink ink' : List Char) : Tail.ofInk (rest.reverse ++ first :: ink) =
        Tail.ofInk (rest.reverse ++ first :: ink') := by
      cases rest.reverse <;> rfl
    constructor
    · simpa [both, Page.token, hl] using htail _ _
    · simpa [both] using h.indent
    · simp [both, Page.token, hl]
    · simp only [both, filled_ink, Page.token, hl, hroom]
      rw [Page.room_append (by simp) rest.reverse, List.append_assoc, List.cons_append]
    · rw [filled_tail (by simp [both, Page.token, hl])]
      simp [both, Page.token, hl]
    · intro hspace
      apply hs
      apply String.toList_injective
      simp only [both, Page.token, hl] at hspace
      cases rest with
      | nil => simp_all
      | cons c rest =>
        have hlength := congrArg List.length hspace
        simp only [List.length_append, List.length_reverse, List.length_cons,
          List.length_nil] at hlength
        omega

/-- Blank text can be held back too: no page makes room for it. -/
theorem push (h : InStep l) {ink : List Char} {blank : Char} (hlast : ink.getLast? = some blank)
    (hblank : Text.isBlank blank = true) (tail : Tail) (lineStart : Bool)
    (htail : Tail.ofInk (ink ++ l.held.ink) = .word ↔ tail = .word)
    (hspace : ink ++ l.held.ink ≠ [' ']) :
    InStep (l.both fun p => { p with ink := ink ++ p.ink, tail, lineStart }) := by
  have hroom : l.filling.room (ink ++ l.held.ink) = l.filling.room l.held.ink := by
    by_cases hheld : l.held.ink = []
    · have hclose : blank ≠ ')' := by
        rintro rfl
        exact absurd hblank (by decide)
      have hattach : Page.attaches blank = true := by simp [Page.attaches, hblank]
      simp [hheld, Page.room, hlast, Page.makeRoom, hclose, hattach]
    · exact Page.room_append hheld ink
  refine ⟨rfl, h.indent, rfl, ?_, ?_, hspace⟩
  · rw [filled_ink]
    simp only [both, h.ink, filled_ink, hroom, List.append_assoc]
  · rw [filled_tail]
    · exact htail
    · intro hnil
      rw [(List.append_eq_nil_iff.mp hnil).1] at hlast
      simp at hlast

/-- Changing the indentation writes nothing. -/
theorem setIndent (h : InStep l) (f : Nat → Nat) :
    InStep (l.both fun p => { p with indent := f p.indent }) :=
  ⟨h.tail, congrArg f h.indent, h.lineStart, h.ink, h.word, h.held_ne_space⟩

theorem newline (h : InStep l) : InStep (l.both (·.newline)) := by
  by_cases hstart : l.held.lineStart = true
  · have hstart' := h.lineStart.trans hstart
    simpa [both, Page.newline, hstart, hstart'] using h
  · have hstart' : l.direct.lineStart = false := by simpa [h.lineStart] using hstart
    have heq : l.both (·.newline) = l.both fun p =>
        { p with ink := (Page.margin l.held.indent ++ ['\n']) ++ p.ink, tail := .start,
                 lineStart := true } := by
      simp [both, Page.newline, hstart, hstart', h.indent]
    have hlast : (Page.margin l.held.indent ++ ['\n']).getLast? = some '\n' := by simp
    rw [heq]
    refine h.push hlast (by decide) _ _ ?_ ?_
    · rw [List.append_assoc, List.singleton_append,
        Page.ofInk_line fun _ hc => Page.eq_space_of_mem_margin hc]
      simp
    · rw [List.append_assoc]
      exact Page.line_ne_space _ _

/-- An empty line can be moved when its line break is held. -/
theorem reindent (h : InStep l)
    (ha : l.direct.ink = [] ∨ ∃ rest, l.held.ink.dropWhile (· == ' ') = '\n' :: rest) :
    InStep (l.both (·.reindent)) := by
  have hink := h.ink.trans l.filled_ink
  rcases ha with hnil | ⟨rest, hdrop⟩
  · have hheld : l.held.ink = [] := by
      rw [hnil] at hink
      exact (List.append_eq_nil_iff.mp hink.symm).1
    simpa [both, Page.reindent, hnil, hheld] using h
  · obtain ⟨spaces, hspaces, heq⟩ := Page.exists_spaces_of_dropWhile hdrop
    have hroom (above : List Char) :
        l.filling.room (above ++ '\n' :: rest) = l.filling.room ('\n' :: rest) :=
      Page.room_append (by simp) above
    rw [heq, hroom, List.append_assoc, List.cons_append] at hink
    have hword : l.held.tail ≠ .word := by
      rw [Ne, ← h.word, filled_tail (by simp [heq]), heq, Page.ofInk_line hspaces]
      simp
    have hheld' : l.held.reindent.ink = Page.margin l.held.indent ++ '\n' :: rest := by
      simp [Page.reindent, hdrop]
    have hdirect' : l.direct.reindent.ink =
        Page.margin l.held.indent ++ '\n' :: (rest ++ l.filling.room ('\n' :: rest)) := by
      simp [Page.reindent, hink, Page.dropWhile_line hspaces, h.indent]
    refine ⟨by simpa [both] using h.tail, by simpa [both] using h.indent,
      by simpa [both] using h.lineStart, ?_, ?_, ?_⟩
    · simp [both, filled_ink, hdirect', hheld', hroom]
    · rw [filled_tail (by simp [both, hheld'])]
      simp [both, hheld', hword, Page.ofInk_line fun _ hc => Page.eq_space_of_mem_margin hc]
    · simp only [both, hheld']
      exact Page.line_ne_space _ _

/-- Handing the held text over leaves the direct page as it is. -/
theorem flush (h : InStep l) : InStep l.flush := by
  have hfilled : l.flush.filled = l.filled := filled_of_nil rfl
  refine ⟨h.tail, h.indent, h.lineStart, ?_, ?_, by simp [Layout.flush]⟩
  · rw [hfilled]
    exact h.ink
  · rw [hfilled]
    exact h.word

/-- A gap is written into the held text, which is then handed over. -/
theorem gap (h : InStep l) : InStep (l.both (·.gap)).flush := by
  by_cases hword : l.held.tail = .word
  · have hdirect : l.direct.gap = { l.direct with ink := ' ' :: l.direct.ink, tail := .space } := by
      simp [Page.gap, h.tail, hword]
    have hheld : l.held.gap = { l.held with ink := ' ' :: l.held.ink, tail := .space } := by
      simp [Page.gap, hword]
    have hroom : l.filling.room (' ' :: l.held.ink) = l.filling.room l.held.ink := by
      by_cases hnil : l.held.ink = []
      · have hattach : Page.attaches ' ' = true := by decide
        simp [hnil, Page.room, Page.makeRoom, hattach]
      · exact Page.room_append hnil [' ']
    have hfilled : (l.both (·.gap)).filled.ink = ' ' :: l.direct.ink := by
      simp [filled_ink, both, hheld, hroom, h.ink]
    have htail : (l.both (·.gap)).filled.tail = .space := by
      rw [filled_tail (by simp [both, hheld])]
      simp only [both, hheld]
      rfl
    refine ⟨by simp [Layout.flush, both, hdirect, hheld], ?_, ?_, ?_, ?_, by simp [Layout.flush]⟩
    · simpa [Layout.flush, both] using h.indent
    · simpa [Layout.flush, both] using h.lineStart
    · rw [filled_of_nil rfl]
      show l.direct.gap.ink = (l.both (·.gap)).filled.ink
      rw [hfilled, hdirect]
    · rw [filled_of_nil rfl]
      show (l.both (·.gap)).filled.tail = .word ↔ l.held.gap.tail = .word
      simp [htail, hheld]
  · have hdirect : l.direct.gap = l.direct := Page.gap_eq_self (by rwa [h.tail])
    have hheld : l.held.gap = l.held := Page.gap_eq_self hword
    simpa [both, hdirect, hheld] using h.flush

/-- After a gap was handed over, the filling page has nothing to separate. -/
theorem gap_filling (h : InStep l) :
    (l.both (·.gap)).flush.filling.gap = (l.both (·.gap)).flush.filling := by
  apply Page.gap_eq_self
  have hword := h.gap.word
  rw [filled_of_nil rfl] at hword
  exact fun htail => Page.gap_tail_ne_word l.held (hword.mp htail)

/-- Entering an indented group begins a line. -/
theorem enter (h : InStep l) : InStep (l.both (·.enter pretty)) := by
  cases pretty with
  | false => exact h
  | true => exact (h.setIndent (· + 1)).newline

/-- Leaving an indented group moves the line if it is empty. -/
theorem exit (h : InStep l) (ha : Anchored pretty l) : InStep (l.both (·.exit pretty)) := by
  cases pretty with
  | false => exact h
  | true =>
    have hout := h.setIndent (· - 1)
    by_cases hstart : l.held.lineStart = true
    · have hstart' : l.direct.lineStart = true := h.lineStart.trans hstart
      simpa [both, Page.exit, hstart, hstart'] using hout.reindent (ha rfl hstart')
    · have hstart' : ¬ l.direct.lineStart = true := by rwa [h.lineStart]
      simpa [both, Page.exit, hstart, hstart'] using hout.newline

end InStep

namespace Anchored

/-- A token that writes something ends the empty line. -/
theorem token {s : String} (h : Anchored pretty l ∨ s ≠ "") :
    Anchored pretty (l.both (·.token s)) := by
  cases hs : s.toList with
  | nil =>
    have hempty : s = "" := String.toList_injective (by simpa using hs)
    subst hempty
    exact h.resolve_right (by simp)
  | cons first rest => exact anchored_of_not_lineStart (by simp [both, Page.token, hs])

/-- A line that was just begun is held. -/
theorem newline (h : InStep l) (ha : Anchored pretty l) : Anchored pretty (l.both (·.newline)) := by
  intro hp hstart
  by_cases hline : l.held.lineStart = true
  · have hline' := h.lineStart.trans hline
    simpa [both, Page.newline, hline, hline'] using ha hp hline'
  · refine .inr ⟨l.held.ink, ?_⟩
    simp only [both, Page.newline, hline]
    exact Page.dropWhile_line (fun _ hc => Page.eq_space_of_mem_margin hc) _

theorem enter (h : InStep l) (ha : Anchored pretty l) :
    Anchored pretty (l.both (·.enter pretty)) := by
  cases pretty with
  | false => exact ha
  | true =>
    have hin : Anchored true (l.both fun p => { p with indent := p.indent + 1 }) := ha
    exact newline (h.setIndent (· + 1)) hin

theorem exit (h : InStep l) (ha : Anchored pretty l) :
    Anchored pretty (l.both (·.exit pretty)) := by
  cases pretty with
  | false => exact ha
  | true =>
    have hout : Anchored true (l.both fun p => { p with indent := p.indent - 1 }) := ha
    by_cases hstart : l.held.lineStart = true
    · have hstart' : l.direct.lineStart = true := h.lineStart.trans hstart
      intro hp _
      rcases ha hp hstart' with hnil | ⟨rest, hdrop⟩
      · refine .inl ?_
        simp [both, Page.exit, hstart', Page.reindent, hnil]
      · refine .inr ⟨rest, ?_⟩
        simp only [both, Page.exit, hstart, Page.reindent, hdrop, if_true]
        exact Page.dropWhile_line (fun _ hc => Page.eq_space_of_mem_margin hc) _
    · have hstart' : ¬ l.direct.lineStart = true := by rwa [h.lineStart]
      simpa [both, Page.exit, hstart, hstart'] using newline (h.setIndent (· - 1)) hout

end Anchored

/-! ## Text that only an execution knows -/

/-- Both pages show the same text at the same indentation. -/
structure Level (indent : Nat) (direct filling : Page) : Prop where
  ink : direct.ink = filling.ink
  indent : direct.indent = indent

variable {indent : Nat} {direct held filling : Page}

theorem InStep.level (h : InStep l) : Level l.held.indent l.direct l.filled :=
  ⟨h.ink, h.indent⟩

theorem Level.write (h : Level indent direct filling) (s : String) :
    Level indent (direct.write s) (filling.write s) :=
  ⟨by simp [h.ink], h.indent⟩

/-- After a supplied text nothing is held. -/
theorem Level.settle (h : Level held.indent direct filling) (glued : Bool) :
    InStep ⟨direct.settle glued, held.cleared.settle glued, filling.settle glued⟩ := by
  refine ⟨rfl, h.indent, rfl, ?_, ?_, by simp⟩
  · rw [filled_of_nil rfl]
    exact h.ink
  · rw [filled_of_nil rfl]
    rfl

/-- Starting over, nothing is held. -/
theorem Level.fresh (h : Level held.indent direct filling) :
    InStep ⟨direct.fresh, held.cleared.fresh, filling.fresh⟩ := by
  refine ⟨rfl, h.indent, rfl, ?_, ?_, by simp⟩
  · rw [filled_of_nil rfl]
    exact h.ink
  · rw [filled_of_nil rfl]
    rfl

end Layout

end PreparedSql
