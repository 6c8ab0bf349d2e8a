import Mathlib.Data.List.DropRight
import PreparedSql.Proofs.Layout.Below

/-!
# Line breaks are layout only

A statement is laid out on two pages at once, on one in a single line and on the other with lines
broken and indented. Both show the same pieces. The pages decide alike about the white space
before the next piece as long as they show the same white space since the last one. They part
when a line is broken, and meet again at the next piece: a line break is never taken back, so
there is white space on the second page wherever there is some on the first.

A closing parenthesis takes back a space before it without regard to where it comes from, but not
across a line break. So spaces at the end of a text are not part of the piece that it shows, unless
it is known that what follows does not look back: this shows on pages of its own what it shows here.
-/

namespace PreparedSql

/-- The white space between two pieces, in a single line and with lines broken. -/
structure Separator where
  compact : List Char
  pretty : List Char
  blank_compact : ∀ c ∈ compact, Text.isBlank c = true
  blank_pretty : ∀ c ∈ pretty, Text.isBlank c = true
  /-- Breaking lines leaves no two pieces without white space that have some in a line. -/
  kept : compact ≠ [] → pretty ≠ []

/-- White space after white space. -/
def Separator.append (s t : Separator) : Separator where
  compact := s.compact ++ t.compact
  pretty := s.pretty ++ t.pretty
  blank_compact := List.forall_mem_append.2 ⟨s.blank_compact, t.blank_compact⟩
  blank_pretty := List.forall_mem_append.2 ⟨s.blank_pretty, t.blank_pretty⟩
  kept := by
    intro hne
    by_cases hs : s.compact = []
    · have ht : t.compact ≠ [] := by simpa [hs] using hne
      exact List.append_ne_nil_of_right_ne_nil _ (t.kept ht)
    · exact List.append_ne_nil_of_left_ne_nil (s.kept hs) _

/-- Two texts that show the same pieces, each after a separator. No piece is empty. -/
inductive Spaced : List String → List Char → List Char → Prop where
  | nil : Spaced [] [] []
  | piece {pieces compact pretty} (s : Separator) {piece : String} (hne : piece ≠ "") :
      Spaced pieces compact pretty →
      Spaced (pieces ++ [piece]) (compact ++ s.compact ++ piece.toList)
        (pretty ++ s.pretty ++ piece.toList)

namespace Spaced

variable {pieces more : List String} {compact pretty c r : List Char}

theorem of_nil (h : Spaced [] compact pretty) : compact = [] ∧ pretty = [] := by
  generalize hnone : ([] : List String) = none at h
  cases h with
  | nil => exact ⟨rfl, rfl⟩
  | piece => simp at hnone

theorem ne_nil (h : Spaced pieces compact pretty) (hne : pieces ≠ []) : compact ≠ [] := by
  cases h with
  | nil => exact absurd rfl hne
  | piece s hpiece => simp [hpiece]

/-- More pieces follow, with white space before them. -/
theorem append (h : Spaced pieces compact pretty) (s : Separator) (hmore : Spaced more c r)
    (hne : more ≠ []) :
    Spaced (pieces ++ more) (compact ++ s.compact ++ c) (pretty ++ s.pretty ++ r) := by
  induction hmore with
  | nil => exact absurd rfl hne
  | @piece more c r t last hlast hmore ih =>
    by_cases hfirst : more = []
    · subst hfirst
      obtain ⟨rfl, rfl⟩ := hmore.of_nil
      have hpiece := h.piece (s.append t) hlast
      simpa [Separator.append] using hpiece
    · have hpiece := (ih hfirst).piece t hlast
      simpa using hpiece

/-- Each piece stands in both texts. -/
theorem isInfix (h : Spaced pieces compact pretty) {piece : String} (hpiece : piece ∈ pieces) :
    piece.toList <:+: compact ∧ piece.toList <:+: pretty := by
  induction h with
  | nil => simp at hpiece
  | piece s hne hpieces ih =>
    rcases List.mem_append.1 hpiece with hin | hlast
    · obtain ⟨hcompact, hpretty⟩ := ih hin
      rw [List.append_assoc, List.append_assoc]
      exact ⟨hcompact.trans (List.prefix_append ..).isInfix,
        hpretty.trans (List.prefix_append ..).isInfix⟩
    · obtain rfl := List.mem_singleton.1 hlast
      exact ⟨(List.suffix_append ..).isInfix, (List.suffix_append ..).isInfix⟩

end Spaced

/-- Two written texts that differ in nothing but the white space between the pieces. -/
def LaidOut (pieces : List String) (compact pretty : String) : Prop :=
  ∃ (s : Separator) (c r : List Char), Spaced pieces c r ∧ compact.toList = c ++ s.compact ∧
    pretty.toList = r ++ s.pretty

namespace LaidOut

variable {pieces : List String} {compact pretty : String}

/-- A text that is not empty is written behind both. -/
theorem write (h : LaidOut pieces compact pretty) {s : String} (hs : s ≠ "") :
    LaidOut (pieces ++ [s]) (compact ++ s) (pretty ++ s) := by
  obtain ⟨space, c, r, hspaced, hcompact, hpretty⟩ := h
  refine ⟨⟨[], [], by simp, by simp, by simp⟩, _, _, hspaced.piece space hs, ?_, ?_⟩
  · simp [hcompact]
  · simp [hpretty]

theorem isInfix (h : LaidOut pieces compact pretty) {piece : String} (hpiece : piece ∈ pieces) :
    piece.toList <:+: compact.toList ∧ piece.toList <:+: pretty.toList := by
  obtain ⟨space, c, r, hspaced, hcompact, hpretty⟩ := h
  obtain ⟨hc, hr⟩ := hspaced.isInfix hpiece
  rw [hcompact, hpretty]
  exact ⟨hc.trans (List.prefix_append ..).isInfix, hr.trans (List.prefix_append ..).isInfix⟩

end LaidOut

/-- A text that does not end in a space. -/
def Firm (s : String) : Prop := s.toList.getLast? ≠ some ' '

instance (s : String) : Decidable (Firm s) :=
  decidable_of_iff (s.toList.getLast? ≠ some ' ') Iff.rfl

/-- A text without the spaces at its end. -/
def Text.trimmed (s : String) : String := String.ofList (s.toList.rdropWhile (· == ' '))

/-- The piece that a text shows, unless there is nothing but spaces. -/
def Text.pieces (s : String) : List String := if trimmed s = "" then [] else [trimmed s]

namespace Text

theorem exists_trimmed (s : String) : ∃ spaces : List Char,
    (∀ c ∈ spaces, isBlank c = true) ∧ s.toList.reverse = spaces ++ (trimmed s).toList.reverse := by
  refine ⟨(s.toList.rtakeWhile (· == ' ')).reverse, fun c hc => ?_, ?_⟩
  · obtain rfl : c = ' ' := by simpa using List.mem_rtakeWhile_imp (List.mem_reverse.1 hc)
    decide
  · rw [trimmed, String.toList_ofList, ← List.reverse_append, List.rdropWhile_append_rtakeWhile]

theorem firm_trimmed (s : String) : Firm (trimmed s) := by
  intro hlast
  rw [trimmed, String.toList_ofList] at hlast
  have hne := List.ne_nil_of_mem (List.mem_of_getLast? hlast)
  rw [List.getLast?_eq_some_getLast hne, Option.some.injEq] at hlast
  exact List.rdropWhile_last_not _ _ hne (by rw [hlast]; rfl)

theorem trimmed_of_firm {s : String} (h : Firm s) : trimmed s = s := by
  rw [trimmed, List.rdropWhile_eq_self_iff.2, String.ofList_toList]
  intro hne hlast
  rw [Firm, List.getLast?_eq_some_getLast hne] at h
  exact h (by simpa using hlast)

theorem pieces_ne_nil {s : String} {c : Char} (hc : c ∈ s.toList) (hne : c ≠ ' ') :
    pieces s ≠ [] := by
  have htrimmed : trimmed s ≠ "" := by
    intro hempty
    have hall := List.rdropWhile_eq_nil_iff.1 (String.ofList_eq_empty_iff.1 hempty)
    exact hne (by simpa using hall c hc)
  simp [pieces, htrimmed]

/-- A text without spaces at its end is shown as it is. -/
theorem pieces_of_firm {s : String} (h : Firm s) : pieces s = if s = "" then [] else [s] := by
  rw [pieces, trimmed_of_firm h]

end Text

namespace Page

/-! ## Room for a token -/

/-- The white space before a token, made of the white space `blanks` after a piece that ends
in `edge`. -/
def roomAfter (tail : Tail) (first : Char) (edge : Option Char) (blanks : List Char) : List Char :=
  if first == ')' then if blanks = [' '] ∧ edge.any (!Text.isBlank ·) then [] else blanks
  else if tail = .word && !attaches first then ' ' :: blanks
  else blanks

section Room

variable {tail : Tail} {first : Char} {edge : Option Char} {blanks ink : List Char}

/-- Making room stops at a piece that does not end in a space. -/
theorem makeRoom_append (hblanks : ∀ c ∈ blanks, Text.isBlank c = true)
    (hink : ink.head? ≠ some ' ') :
    makeRoom tail first (blanks ++ ink) = roomAfter tail first ink.head? blanks ++ ink := by
  have hclose : closeUp (blanks ++ ink) =
      (if blanks = [' '] ∧ ink.head?.any (!Text.isBlank ·) then [] else blanks) ++ ink := by
    match blanks with
    | [] =>
      cases ink with
      | nil => rfl
      | cons c ink =>
        have hc : c ≠ ' ' := by simpa using hink
        simp [closeUp, hc]
    | [c] =>
      by_cases hc : c = ' '
      · subst hc
        cases ink with
        | nil => simp [closeUp]
        | cons d ink => cases hd : Text.isBlank d <;> simp [closeUp, hd]
      · simp [closeUp, hc]
    | c :: d :: blanks =>
      have hd : Text.isBlank d = true := hblanks d (by simp)
      by_cases hc : c = ' ' <;> simp [closeUp, hc, hd]
  unfold makeRoom roomAfter
  split
  · exact hclose
  · split <;> rfl

theorem isBlank_of_mem_roomAfter (hblanks : ∀ c ∈ blanks, Text.isBlank c = true) :
    ∀ c ∈ roomAfter tail first edge blanks, Text.isBlank c = true := by
  unfold roomAfter
  split
  · split
    · simp
    · exact hblanks
  · split
    · exact List.forall_mem_cons.2 ⟨by decide, hblanks⟩
    · exact hblanks

/-- A line break is not taken back. -/
theorem newline_mem_roomAfter (h : '\n' ∈ blanks) : '\n' ∈ roomAfter tail first edge blanks := by
  have hne : blanks ≠ [' '] := by
    rintro rfl
    simp at h
  unfold roomAfter
  split
  · simpa [hne] using h
  · split
    · exact List.mem_cons_of_mem _ h
    · exact h

end Room

/-! ## Two pages -/

/-- Two pages that show the same pieces, and the white space after the last one, newest
character first. -/
structure Apart (pieces : List String) (p q : Page) (blanks blanks' : List Char) : Prop where
  shown : ∃ ink ink', Spaced pieces ink.reverse ink'.reverse ∧ ink.head? = ink'.head? ∧
    ink.head? ≠ some ' ' ∧ p.ink = blanks ++ ink ∧ q.ink = blanks' ++ ink'
  blank : ∀ c ∈ blanks, Text.isBlank c = true
  blank' : ∀ c ∈ blanks', Text.isBlank c = true
  /-- The pages part only where a line is broken. -/
  alike : blanks = blanks' ∨ '\n' ∈ blanks'

/-- Two pages that show the same pieces. -/
def Level (pieces : List String) (p q : Page) : Prop :=
  ∃ blanks blanks', Apart pieces p q blanks blanks'

/-- Two pages whose texts show the same pieces, whatever they end in. -/
def Alike (pieces : List String) (p q : Page) : Prop := LaidOut pieces p.text q.text

/-- Two pages that also decide alike about the next token, unless a line was broken. -/
def InStep (pieces : List String) (p q : Page) : Prop :=
  ∃ blanks blanks', Apart pieces p q blanks blanks' ∧ (p.tail = q.tail ∨ '\n' ∈ blanks')

/-- Two pages in step, the second one with the break of its empty line after the last piece. -/
def Anchored (pieces : List String) (p q : Page) : Prop :=
  ∃ blanks blanks', Apart pieces p q blanks blanks' ∧ (p.tail = q.tail ∨ '\n' ∈ blanks') ∧
    (q.lineStart = true → '\n' ∈ blanks' ∨ q.ink = [])

variable {pieces : List String} {p q : Page} {blanks blanks' : List Char}

theorem Anchored.inStep (h : Anchored pieces p q) : InStep pieces p q := by
  obtain ⟨blanks, blanks', hapart, htail, -⟩ := h
  exact ⟨blanks, blanks', hapart, htail⟩

theorem InStep.anchored (h : InStep pieces p q) (hline : q.lineStart = false) :
    Anchored pieces p q := by
  obtain ⟨blanks, blanks', hapart, htail⟩ := h
  exact ⟨blanks, blanks', hapart, htail, fun hstart => by simp [hline] at hstart⟩

theorem InStep.level (h : InStep pieces p q) : Level pieces p q := by
  obtain ⟨blanks, blanks', hapart, -⟩ := h
  exact ⟨blanks, blanks', hapart⟩

theorem Level.inStep (h : Level pieces p q) (htail : p.tail = q.tail) : InStep pieces p q := by
  obtain ⟨blanks, blanks', hapart⟩ := h
  exact ⟨blanks, blanks', hapart, .inl htail⟩

/-- Nothing is written yet, whatever may come first. -/
theorem apart_cleared (p q : Page) : Apart [] p.cleared q.cleared [] [] :=
  ⟨⟨[], [], .nil, rfl, by simp, rfl, rfl⟩, by simp, by simp, .inl rfl⟩

theorem inStep_cleared (h : p.tail = q.tail) : InStep [] p.cleared q.cleared :=
  ⟨[], [], apart_cleared p q, .inl h⟩

theorem anchored_start : Anchored [] {} {} :=
  ⟨[], [], apart_cleared {} {}, .inl rfl, fun _ => .inr rfl⟩

/-- White space is added on both pages, the same or with a line break. -/
theorem Apart.extend {p' q' : Page} {front front' : List Char} (h : Apart pieces p q blanks blanks')
    (hfront : ∀ c ∈ front, Text.isBlank c = true) (hfront' : ∀ c ∈ front', Text.isBlank c = true)
    (hp : p'.ink = front ++ p.ink) (hq : q'.ink = front' ++ q.ink)
    (halike : front = front' ∨ '\n' ∈ front' ++ blanks') :
    Apart pieces p' q' (front ++ blanks) (front' ++ blanks') := by
  obtain ⟨ink, ink', hspaced, hedge, hfirm, hink, hink'⟩ := h.shown
  refine ⟨⟨ink, ink', hspaced, hedge, hfirm, by rw [hp, hink, List.append_assoc],
    by rw [hq, hink', List.append_assoc]⟩, ?_, ?_, ?_⟩
  · exact List.forall_mem_append.2 ⟨hfront, h.blank⟩
  · exact List.forall_mem_append.2 ⟨hfront', h.blank'⟩
  · by_cases hbreak : '\n' ∈ front' ++ blanks'
    · exact .inr hbreak
    · have hsame := h.alike.resolve_right fun hin => hbreak (List.mem_append_right _ hin)
      exact .inl (by rw [halike.resolve_right hbreak, hsame])

/-- What is not about the written text leaves the pages apart as they are. -/
theorem Apart.congr {p' q' : Page} (h : Apart pieces p q blanks blanks') (hp : p'.ink = p.ink)
    (hq : q'.ink = q.ink) : Apart pieces p' q' blanks blanks' :=
  ⟨by rw [hp, hq]; exact h.shown, h.blank, h.blank', h.alike⟩

/-- White space on the first page is matched by some on the second. -/
def Apart.separator (h : Apart pieces p q blanks blanks') : Separator where
  compact := blanks.reverse
  pretty := blanks'.reverse
  blank_compact := by simpa using h.blank
  blank_pretty := by simpa using h.blank'
  kept := by
    rw [ne_eq, List.reverse_eq_nil_iff, ne_eq, List.reverse_eq_nil_iff]
    intro hne
    rcases h.alike with hsame | hbreak
    · exact hsame ▸ hne
    · exact List.ne_nil_of_mem hbreak

/-- The texts of the pages differ in white space only. -/
theorem Level.alike (h : Level pieces p q) : Alike pieces p q := by
  obtain ⟨blanks, blanks', hapart⟩ := h
  obtain ⟨ink, ink', hspaced, -, -, hink, hink'⟩ := hapart.shown
  exact ⟨hapart.separator, _, _, hspaced, by simp [text, hink, Apart.separator],
    by simp [text, hink', Apart.separator]⟩

theorem Alike.write (h : Alike pieces p q) {s : String} (hs : s ≠ "") :
    Alike (pieces ++ [s]) (p.write s) (q.write s) := by
  have hboth := LaidOut.write h hs
  simpa [Alike, text, Page.write] using hboth

/-- What shows something on pages of its own shows it after the pieces of any others. -/
theorem Level.atop {more : List String} {p' q' : Page} (h : Level more p q) (hne : more ≠ [])
    (hbelow : Alike pieces p' q') : Level (pieces ++ more) (p.atop p'.ink) (q.atop q'.ink) := by
  obtain ⟨blanks, blanks', hapart⟩ := h
  obtain ⟨ink, ink', hspaced, hedge, hfirm, hink, hink'⟩ := hapart.shown
  obtain ⟨space, c, r, hothers, hcompact, hpretty⟩ := hbelow
  have hhead : ∃ first, ink.head? = some first := by
    have hnil : ink ≠ [] := by simpa using hspaced.ne_nil hne
    exact ⟨_, List.head?_eq_some_head hnil⟩
  obtain ⟨first, hfirst⟩ := hhead
  have hfirst' : ink'.head? = some first := hedge ▸ hfirst
  refine ⟨blanks, blanks', ⟨ink ++ p'.ink, ink' ++ q'.ink, ?_, ?_, ?_, ?_, ?_⟩, hapart.blank,
    hapart.blank', hapart.alike⟩
  · have hall := hothers.append space hspaced hne
    rw [← hcompact, ← hpretty] at hall
    simpa [text] using hall
  · simp [hfirst, hfirst']
  · simpa [hfirst] using hfirm
  · simp [hink]
  · simp [hink']

/-- A text is written on both pages. Spaces at its end count as white space after it. -/
theorem Apart.written {p' q' : Page} {s : String} (h : Apart pieces p q blanks blanks')
    (hp : p'.ink = s.toList.reverse ++ p.ink) (hq : q'.ink = s.toList.reverse ++ q.ink) :
    Level (pieces ++ Text.pieces s) p' q' := by
  obtain ⟨ink, ink', hspaced, -, -, hink, hink'⟩ := h.shown
  obtain ⟨spaces, hspaces, hsplit⟩ := Text.exists_trimmed s
  by_cases hcore : Text.trimmed s = ""
  · have hfront : s.toList.reverse = spaces := by simp [hsplit, hcore]
    rw [hfront] at hp hq
    exact ⟨_, _, by simpa [Text.pieces, hcore] using h.extend hspaces hspaces hp hq (.inl rfl)⟩
  · have hne : (Text.trimmed s).toList ≠ [] := by simpa using hcore
    have hhead (below : List Char) : ((Text.trimmed s).toList.reverse ++ below).head? =
        (Text.trimmed s).toList.getLast? := by
      rw [List.head?_append, List.head?_reverse, List.getLast?_eq_some_getLast hne]
      rfl
    refine ⟨spaces, spaces, ⟨(Text.trimmed s).toList.reverse ++ (blanks ++ ink),
      (Text.trimmed s).toList.reverse ++ (blanks' ++ ink'), ?_, ?_, ?_, ?_, ?_⟩, hspaces, hspaces,
      .inl rfl⟩
    · have hpiece := hspaced.piece h.separator hcore
      simpa [Text.pieces, hcore, Apart.separator] using hpiece
    · rw [hhead, hhead]
    · rw [hhead]
      exact Text.firm_trimmed s
    · rw [hp, hsplit, hink, List.append_assoc]
    · rw [hq, hsplit, hink', List.append_assoc]

namespace InStep

/-- Room is made on both pages for a token that starts with `first`. -/
theorem makeRoom (h : InStep pieces p q) (first : Char) :
    Level pieces { p with ink := Page.makeRoom p.tail first p.ink }
      { q with ink := Page.makeRoom q.tail first q.ink } := by
  obtain ⟨blanks, blanks', hapart, htail⟩ := h
  obtain ⟨ink, ink', hspaced, hedge, hfirm, hp, hq⟩ := hapart.shown
  refine ⟨roomAfter p.tail first ink.head? blanks, roomAfter q.tail first ink'.head? blanks',
    ⟨ink, ink', hspaced, hedge, hfirm, ?_, ?_⟩, isBlank_of_mem_roomAfter hapart.blank,
    isBlank_of_mem_roomAfter hapart.blank', ?_⟩
  · rw [hp, makeRoom_append hapart.blank hfirm]
  · rw [hq, makeRoom_append hapart.blank' (hedge ▸ hfirm)]
  · by_cases hbreak : '\n' ∈ blanks'
    · exact .inr (newline_mem_roomAfter hbreak)
    · -- Without a line break the pages agree in all that decides.
      rw [← hedge, ← htail.resolve_right hbreak, ← hapart.alike.resolve_right hbreak]
      exact .inl rfl

/-- A token is written on both pages. -/
theorem token (h : InStep pieces p q) (s : String) :
    InStep (pieces ++ Text.pieces s) (p.token s) (q.token s) := by
  cases hlist : s.toList with
  | nil =>
    obtain rfl : s = "" := by simpa using hlist
    simpa [Text.pieces, Text.trimmed, Page.token] using h
  | cons first rest =>
    obtain ⟨blanks, blanks', hroom⟩ := h.makeRoom first
    have htail (ink ink' : List Char) : Tail.ofInk (rest.reverse ++ first :: ink) =
        Tail.ofInk (rest.reverse ++ first :: ink') := by
      cases rest.reverse <;> rfl
    have hlevel : Level (pieces ++ Text.pieces s) (p.token s) (q.token s) :=
      hroom.written (by simp [Page.token, hlist]) (by simp [Page.token, hlist])
    exact hlevel.inStep (by simpa [Page.token, hlist] using htail _ _)

/-- After a token the line is not empty. -/
theorem token_anchored {s : String} (h : InStep pieces p q) (hs : s ≠ "") :
    Anchored (pieces ++ Text.pieces s) (p.token s) (q.token s) := by
  refine (h.token s).anchored ?_
  cases hlist : s.toList with
  | nil => exact absurd (by simpa using hlist) hs
  | cons first rest => simp [Page.token, hlist]

/-- A line that is broken on the second page only. -/
theorem breakLine (h : InStep pieces p q) (hline : q.lineStart = false) :
    Anchored pieces p q.newline := by
  obtain ⟨blanks, blanks', hapart, -⟩ := h
  have hblank : ∀ c ∈ margin q.indent ++ ['\n'], Text.isBlank c = true := by
    intro c hc
    rcases List.mem_append.1 hc with hc | hc
    · rw [eq_space_of_mem_margin hc]
      decide
    · rw [List.mem_singleton.1 hc]
      decide
  have hbreak : '\n' ∈ margin q.indent ++ ['\n'] ++ blanks' := by simp
  have hink : q.newline.ink = margin q.indent ++ ['\n'] ++ q.ink := by
    simp [Page.newline, hline]
  refine ⟨[] ++ blanks, _, ?_, .inr hbreak, fun _ => .inl hbreak⟩
  exact hapart.extend (by simp) hblank rfl hink (.inr hbreak)

theorem newline (h : InStep pieces p q) : InStep pieces p q.newline := by
  cases hline : q.lineStart with
  | true => simpa [Page.newline, hline] using h
  | false => exact (h.breakLine hline).inStep

/-- A delimiter may end the line on the second page. -/
theorem delimiter (h : InStep pieces p q) (s : String) (kind : DelimiterKind) :
    InStep (pieces ++ Text.pieces s) (p.delimiter false s kind) (q.delimiter true s kind) := by
  unfold Page.delimiter
  cases kind.breaksLine with
  | false => exact h.token s
  | true => exact (h.token s).newline

/-- A gap is written on both pages, or a line was broken. -/
theorem gap (h : InStep pieces p q) : InStep pieces p.gap q.gap := by
  obtain ⟨blanks, blanks', hapart, htail⟩ := h
  have hgap (page : Page) : ∃ front, (∀ c ∈ front, Text.isBlank c = true) ∧
      page.gap.ink = front ++ page.ink ∧ front = if page.tail = .word then [' '] else [] := by
    by_cases hword : page.tail = .word
    · exact ⟨[' '], List.forall_mem_singleton.2 (by decide), by simp [Page.gap, hword],
        by simp [hword]⟩
    · exact ⟨[], by simp, by simp [Page.gap, hword], by simp [hword]⟩
  obtain ⟨front, hblank, hink, hfront⟩ := hgap p
  obtain ⟨front', hblank', hink', hfront'⟩ := hgap q
  by_cases hbreak : '\n' ∈ blanks'
  · have hbreak' : '\n' ∈ front' ++ blanks' := List.mem_append_right _ hbreak
    exact ⟨_, _, hapart.extend hblank hblank' hink hink' (.inr hbreak'), .inr hbreak'⟩
  · have hsame := htail.resolve_right hbreak
    refine ⟨_, _, hapart.extend hblank hblank' hink hink' (.inl (by rw [hfront, hfront', hsame])),
      .inl ?_⟩
    by_cases hword : p.tail = .word
    · simp [Page.gap, ← hsame, hword]
    · simp [Page.gap, ← hsame, hword]

end InStep

namespace Anchored

theorem newline (h : Anchored pieces p q) : Anchored pieces p q.newline := by
  cases hline : q.lineStart with
  | true => simpa [Page.newline, hline] using h
  | false => exact h.inStep.breakLine hline

theorem token (h : Anchored pieces p q) (s : String) :
    Anchored (pieces ++ Text.pieces s) (p.token s) (q.token s) := by
  by_cases hs : s = ""
  · subst hs
    simpa [Text.pieces, Text.trimmed, Page.token] using h
  · exact h.inStep.token_anchored hs

theorem delimiter {s : String} (h : Anchored (pieces ++ Text.pieces s) (p.token s) (q.token s))
    (kind : DelimiterKind) :
    Anchored (pieces ++ Text.pieces s) (p.delimiter false s kind) (q.delimiter true s kind) := by
  unfold Page.delimiter
  cases kind.breaksLine with
  | false => exact h
  | true => exact h.newline

/-- Moving an empty line leaves its break. -/
theorem reindent (h : Anchored pieces p q) (hline : q.lineStart = true) :
    Anchored pieces p q.reindent := by
  obtain ⟨blanks, blanks', hapart, htail, hanchor⟩ := h
  rcases hanchor hline with hbreak | hnil
  · obtain ⟨ink, ink', hspaced, hedge, hfirm, hp, hq⟩ := hapart.shown
    have hne : blanks'.dropWhile (· == ' ') ≠ [] := by
      intro hnil
      exact absurd (List.dropWhile_eq_nil_iff.1 hnil '\n' hbreak) (by decide)
    have hdrop : q.ink.dropWhile (· == ' ') = blanks'.dropWhile (· == ' ') ++ ink' := by
      rw [hq, List.dropWhile_append, if_neg (by simpa using hne)]
    unfold Page.reindent
    split
    · next rest hrest =>
      -- The break that is found is one of the white space since the last piece.
      obtain ⟨below, hbelow, rfl⟩ : ∃ below, blanks'.dropWhile (· == ' ') = '\n' :: below ∧
          rest = below ++ ink' := by
        rw [hdrop] at hrest
        cases hlist : blanks'.dropWhile (· == ' ') with
        | nil => exact absurd hlist hne
        | cons c below =>
          rw [hlist] at hrest
          obtain ⟨rfl, rfl⟩ := List.cons.inj hrest
          exact ⟨below, rfl, rfl⟩
      have hsub : ∀ c ∈ '\n' :: below, Text.isBlank c = true := fun c hc =>
        hapart.blank' c (List.dropWhile_subset _ (hbelow ▸ hc))
      have hblank : ∀ c ∈ margin q.indent ++ '\n' :: below, Text.isBlank c = true := by
        refine List.forall_mem_append.2 ⟨fun c hc => ?_, hsub⟩
        rw [eq_space_of_mem_margin hc]
        decide
      have hbreak' : '\n' ∈ margin q.indent ++ '\n' :: below := by simp
      exact ⟨blanks, margin q.indent ++ '\n' :: below,
        ⟨⟨ink, ink', hspaced, hedge, hfirm, hp, by simp⟩, hapart.blank, hblank, .inr hbreak'⟩,
        .inr hbreak', fun _ => .inl hbreak'⟩
    · exact ⟨blanks, blanks', hapart, htail, hanchor⟩
  · have hsame : q.reindent = q := by simp [Page.reindent, hnil]
    rw [hsame]
    exact ⟨blanks, blanks', hapart, htail, hanchor⟩

theorem enter (h : Anchored pieces p q) : Anchored pieces (p.enter false) (q.enter true) := by
  obtain ⟨blanks, blanks', hapart, htail, hanchor⟩ := h
  have hin : Anchored pieces p { q with indent := q.indent + 1 } :=
    ⟨blanks, blanks', hapart.congr rfl rfl, htail, hanchor⟩
  exact hin.newline

/-- Leaving a group moves the break of an empty line, but does not remove it. -/
theorem exit (h : Anchored pieces p q) : Anchored pieces (p.exit false) (q.exit true) := by
  obtain ⟨blanks, blanks', hapart, htail, hanchor⟩ := h
  have hout : Anchored pieces p { q with indent := q.indent - 1 } :=
    ⟨blanks, blanks', hapart.congr rfl rfl, htail, hanchor⟩
  cases hline : q.lineStart with
  | false =>
    have hexit : q.exit true = ({ q with indent := q.indent - 1 } : Page).newline := by
      simp [Page.exit, hline]
    rw [hexit]
    exact hout.newline
  | true =>
    have hexit : q.exit true = ({ q with indent := q.indent - 1 } : Page).reindent := by
      simp [Page.exit, hline]
    rw [hexit]
    exact hout.reindent hline

end Anchored

namespace Level

theorem settle (h : Level pieces p q) (glued : Bool) :
    Anchored pieces (p.settle glued) (q.settle glued) := by
  obtain ⟨blanks, blanks', hapart⟩ := h
  exact ⟨blanks, blanks', hapart.congr rfl rfl, .inl rfl, fun hline => nomatch hline⟩

theorem fresh (h : Level pieces p q) : InStep pieces p.fresh q.fresh := by
  obtain ⟨blanks, blanks', hapart⟩ := h
  exact ⟨blanks, blanks', hapart.congr rfl rfl, .inl rfl⟩

/-- A supplied text is written on both pages. -/
theorem write (h : Level pieces p q) (s : String) :
    Level (pieces ++ Text.pieces s) (p.write s) (q.write s) := by
  obtain ⟨blanks, blanks', hapart⟩ := h
  exact hapart.written rfl rfl

end Level

end Page

end PreparedSql
