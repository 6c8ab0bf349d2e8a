import PreparedSql.Proofs.Layout.Sheet

/-!
# Lines and margins

With lines broken, what stands on one line is at one depth, and the line begins at the margin of
that depth. So it is if an indented group is entered on a line that has something on it: then a line
is begun at the margin inside. When a group is left on an empty line, the line is moved to the
margin outside. But a group that is entered on an empty line leaves it where it is, so that the
group's first line stands at the margin outside. Such a layout is called *raised*.

What the current line may look like when a fragment is laid out, and what it looks like then, is
told by five states. The lemmas about them are the rules of a small calculus, one for each
operation of a sheet.
-/

namespace PreparedSql

open Page (margin)

namespace Entry

/-- How many indented groups an entry is in. -/
def depth (e : Entry) : Nat := e.imprint.position.depth

/-- Whether all entries are outside of indented groups. -/
def flat (es : List Entry) : Bool := es.all (·.depth == 0)

/-- How far a line at the depth `d` is indented that begins behind the given entries. In a raised
layout, the first one inside an indented group stands one level further out. -/
def level (raised : Bool) (d : Nat) (older : List Entry) : Nat :=
  if raised && flat older then d - 1 else d

/-- An entry is the first one at all, begins a line at its margin, or goes on in the line of the
entry before it, which is at the same depth. -/
inductive Aligned (raised : Bool) (e : Entry) (older : List Entry) : Prop where
  | first (older : older = []) (below : e.below = []) (depth : e.depth = 0)
  | line (rest : List Char) (below : e.below = margin (level raised e.depth older) ++ '\n' :: rest)
  | same (x : Entry) (before : older.head? = some x) (depth : x.depth = e.depth)
      (below : '\n' ∉ e.below)

def AlignedAll (raised : Bool) : List Entry → Prop
  | [] => True
  | e :: older => Aligned raised e older ∧ AlignedAll raised older

theorem level_of_not_flat {raised : Bool} {d : Nat} {older : List Entry}
    (h : raised = true → flat older = false) : level raised d older = d := by
  cases raised <;> simp_all [level]

/-- The last entry is inside an indented group. -/
theorem flat_eq_false {d : Nat} {es : List Entry} (h : ∃ e, es.head? = some e ∧ e.depth = d)
    (hd : 0 < d) : flat es = false := by
  obtain ⟨e, he, rfl⟩ := h
  refine Bool.eq_false_iff.2 fun hflat => ?_
  have hall := List.all_eq_true.1 hflat e (List.mem_of_head? he)
  have hdepth : e.depth = 0 := by simpa using hall
  omega

theorem level_zero (raised : Bool) (older : List Entry) : level raised 0 older = 0 := by
  simp [level]

/-- A line of an entry that is at the same depth. -/
theorem level_of_head {raised : Bool} {d : Nat} {es : List Entry}
    (h : ∃ e, es.head? = some e ∧ e.depth = d) : level raised d es = d := by
  by_cases hd : d = 0
  · rw [hd, level_zero]
  · exact level_of_not_flat fun _ => flat_eq_false h (by omega)

/-- `e`, the newest of the entries, stands on a line that begins with the entry `first`. -/
structure OnLine (raised : Bool) (e : Entry) (older between : List Entry) (first : Entry)
    (before : List Entry) : Prop where
  split : e :: older = between ++ first :: before
  unbroken : '\n' ∉ charsAll between ++ first.ink
  depth : first.depth = e.depth
  /-- Before `first`, the line has nothing but the margin. -/
  margin : (first.below ++ charsAll before).takeWhile (· ≠ '\n') =
    margin (level raised first.depth before)

theorem AlignedAll.exists_onLine {raised : Bool} {e : Entry} {older : List Entry}
    (h : AlignedAll raised (e :: older)) (hink : ∀ x ∈ e :: older, '\n' ∉ x.ink) :
    ∃ between first before, OnLine raised e older between first before := by
  obtain ⟨he, holder⟩ := h
  obtain ⟨hfirst, hrest⟩ := List.forall_mem_cons.1 hink
  cases he with
  | first hnil hbelow hdepth =>
    refine ⟨[], e, older, rfl, by simpa using hfirst, rfl, ?_⟩
    rw [hnil, hbelow, hdepth, level_zero]
    rfl
  | line rest hbelow =>
    refine ⟨[], e, older, rfl, by simpa using hfirst, rfl, ?_⟩
    rw [hbelow, List.append_assoc, List.takeWhile_append_of_pos]
    · simp
    · intro c hc
      rw [Page.eq_space_of_mem_margin hc]
      decide
  | same x hx hdepth hbelow =>
    cases older with
    | nil => simp at hx
    | cons y older =>
      obtain rfl : y = x := by simpa using hx
      obtain ⟨between, first, before, hline⟩ := holder.exists_onLine hrest
      refine ⟨e :: between, first, before, ?_, ?_, hline.depth.trans hdepth, hline.margin⟩
      · rw [hline.split, List.cons_append]
      · have hunbroken := hline.unbroken
        simp_all

theorem AlignedAll.of_append {raised : Bool} {newer es : List Entry}
    (h : AlignedAll raised (newer ++ es)) : AlignedAll raised es := by
  induction newer with
  | nil => exact h
  | cons e newer ih => exact ih h.2

/-- At a margin, a space has another one or the line break below it. -/
theorem exists_blank_of_margin {n : Nat} {below rest : List Char}
    (h : ' ' :: below = margin n ++ '\n' :: rest) :
    ∃ b below', below = b :: below' ∧ Text.isBlank b = true := by
  cases n with
  | zero => exact absurd (List.cons.inj h).1 (by decide)
  | succ n => exact ⟨' ', _, (List.cons.inj h).2, by decide⟩

/-- Taking back a space that follows a word moves no line. -/
theorem alignedAll_dropAll {raised : Bool} {es : List Entry} (h : AlignedAll raised es)
    {c : Char} {rest : List Char} (hchars : charsAll es = ' ' :: c :: rest)
    (hc : Text.isBlank c = false) : AlignedAll raised (dropAll 1 es) := by
  induction es with
  | nil => exact h
  | cons e older ih =>
    obtain ⟨he, holder⟩ := h
    rw [charsAll_cons] at hchars
    cases hink : e.ink with
    | cons last ink =>
      -- The space belongs to the text of the entry.
      have hdrop : dropAll 1 (e :: older) = { e with ink := ink } :: older := by
        simp [dropAll, hink]
      rw [hdrop]
      refine ⟨?_, holder⟩
      cases he with
      | first holder hbelow hdepth => exact .first holder hbelow hdepth
      | line rest hbelow => exact .line rest hbelow
      | same x hx hdepth hbelow => exact .same x hx hdepth hbelow
    | nil =>
      rw [hink, List.nil_append] at hchars
      cases hbelow : e.below with
      | cons b below =>
        have hdrop : dropAll 1 (e :: older) = { e with ink := [], below := below } :: older := by
          simp [dropAll, hink, hbelow]
        rw [hbelow, List.cons_append] at hchars
        obtain ⟨rfl, hbelow'⟩ := List.cons.inj hchars
        rw [hdrop]
        refine ⟨?_, holder⟩
        cases he with
        | first _ hnil _ => simp [hbelow] at hnil
        | line rest hline =>
          -- A space at a margin has another one or the line break below it.
          obtain ⟨b, below', rfl, hb⟩ :=
            exists_blank_of_margin (hbelow.symm.trans hline)
          obtain ⟨rfl, -⟩ := List.cons.inj hbelow'
          rw [hb] at hc
          cases hc
        | same x hx hdepth hnone =>
          rw [hbelow] at hnone
          exact .same x hx hdepth fun hin => hnone (List.mem_cons_of_mem _ hin)
      | nil =>
        have hdrop : dropAll 1 (e :: older) = e :: dropAll 1 older := by
          cases e
          simp_all [dropAll]
        rw [hbelow, List.nil_append] at hchars
        rw [hdrop]
        refine ⟨?_, ih holder hchars⟩
        cases he with
        | first hnil _ _ => simp [hnil] at hchars
        | line rest hline => simp [hbelow] at hline
        | same x hx hdepth hnone =>
          cases older with
          | nil => simp at hx
          | cons y older =>
            obtain rfl : y = x := by simpa using hx
            exact .same _ rfl hdepth hnone

end Entry

/-- White space since the last entry is taken back without regard to the entries. -/
theorem Sheet.backTo_top (s : Sheet) {front back : List Char} (h : s.top = front ++ back) :
    s.backTo (back ++ Entry.charsAll s.entries) = { s with top := back } := by
  have hlength : s.ink.length - (back ++ Entry.charsAll s.entries).length = front.length := by
    simp [Sheet.ink, h]
  rw [Sheet.backTo, hlength]
  simp [Sheet.drop, h]

theorem Sheet.backTo_self (s : Sheet) : s.backTo s.ink = s :=
  s.backTo_top (List.nil_append s.top).symm

theorem Tail.start_ne_word : Tail.start ≠ .word := by decide

/-- What the current line looks like. -/
inductive LineState where
  /-- It has entries, and no line break is suppressed. -/
  | filled
  /-- It is empty, up to its margin. -/
  | margin
  /-- One of these. -/
  | begun
  /-- It has entries, but may count as empty, as at the beginning of a row. -/
  | inked
  /-- It has entries or is empty, up to its margin. -/
  | loose
deriving DecidableEq, Repr

/-- Whether a state is a case of another one. -/
def LineState.within : LineState → LineState → Bool
  | .filled, .margin => false
  | .filled, _ => true
  | .margin, .margin | .margin, .begun | .margin, .loose => true
  | .begun, .begun | .begun, .loose => true
  | .inked, .inked | .inked, .loose => true
  | .loose, .loose => true
  | _, _ => false

namespace Sheet

/-- The current line has entries, the last of which is at the current depth. -/
structure Inked (s : Sheet) : Prop where
  last : ∃ e, s.entries.head? = some e ∧ e.depth = s.indent
  top : '\n' ∉ s.top

/-- The current line is empty and at its margin. -/
structure AtMargin (raised : Bool) (s : Sheet) : Prop where
  lineStart : s.lineStart = true
  tail : s.tail ≠ .word
  top : (∃ rest, s.top = margin (Entry.level raised s.indent s.entries) ++ '\n' :: rest) ∨
    s.entries = [] ∧ s.top = [] ∧ s.indent = 0

/-- At a margin no room is made: there is white space, but none to take back. -/
theorem AtMargin.makeRoom {raised : Bool} {s : Sheet} (h : s.AtMargin raised) (first : Char) :
    s.makeRoom first = s := by
  have hclose : Page.closeUp s.ink = s.ink := by
    rcases Page.closeUp_cases s.ink with hsame | ⟨c, rest, hink, hc, -⟩
    · exact hsame
    · rcases h.top with ⟨rest', htop⟩ | ⟨hentries, htop, -⟩
      · rw [ink, htop, List.append_assoc, List.cons_append] at hink
        obtain ⟨b, below, hbelow, hb⟩ := Entry.exists_blank_of_margin hink.symm
        obtain ⟨rfl, -⟩ := List.cons.inj hbelow
        rw [hb] at hc
        cases hc
      · simp [ink, hentries, htop] at hink
  unfold Sheet.makeRoom
  split
  · rw [hclose, backTo_self]
  · rw [if_neg (by simp [h.tail])]

def InState (raised : Bool) (s : Sheet) : LineState → Prop
  | .filled => s.Inked ∧ s.lineStart = false
  | .margin => s.AtMargin raised
  | .begun => (s.Inked ∧ s.lineStart = false) ∨ s.AtMargin raised
  | .inked => s.Inked
  | .loose => s.Inked ∨ s.AtMargin raised

/-- All entries are aligned, and the current line, at the depth `d`, is in the given state. -/
structure Stands (raised : Bool) (d : Nat) (state : LineState) (s : Sheet) : Prop where
  aligned : Entry.AlignedAll raised s.entries
  indent : s.indent = d
  state : s.InState raised state

/-- Every line begins at the margin of the depth of its first entry, which is that of all its
entries. -/
def Indented (raised : Bool) (s : Sheet) : Prop :=
  ∀ newer e older, s.entries = newer ++ e :: older →
    ∃ between first before, Entry.OnLine raised e older between first before

theorem stands_empty (raised : Bool) : Stands raised 0 .margin {} :=
  ⟨trivial, rfl, rfl, Tail.start_ne_word, .inr ⟨rfl, rfl, rfl⟩⟩

namespace Stands

variable {raised : Bool} {d : Nat} {X Y : LineState} {s s' : Sheet} {x : Imprint}

/-- As far as no text has a line break in it, all breaks are those of lines. -/
theorem indented (h : Stands raised d X s) (hsound : s.Sound)
    (htexts : ∀ x ∈ s.imprints, '\n' ∉ x.text.toList) : s.Indented raised := by
  intro newer e older hentries
  have haligned := h.aligned
  rw [hentries] at haligned
  refine haligned.of_append.exists_onLine fun x hx hin => ?_
  have hmem : x ∈ s.entries := by
    rw [hentries]
    exact List.mem_append_right newer hx
  obtain ⟨spaces, -, htext⟩ := (hsound.entries x hmem).left
  refine htexts x.imprint (List.mem_reverse.2 (List.mem_map_of_mem hmem)) ?_
  rw [← List.mem_reverse, htext]
  exact List.mem_append_right spaces hin

theorem mono (h : Stands raised d X s) (hXY : X.within Y = true) : Stands raised d Y s := by
  refine ⟨h.aligned, h.indent, ?_⟩
  have hs := h.state
  cases X with
  | begun =>
    cases Y with
    | begun => exact hs
    | loose => exact hs.imp_left And.left
    | filled | margin | inked => cases hXY
  | filled | margin | inked | loose => cases Y <;> simp_all [LineState.within, InState]

/-- What is written behind other entries of the line goes on in it. -/
theorem put_inked (h : Stands raised d .inked s) (hx : x.position.depth = d) :
    Stands raised d .inked (s.put x) := by
  obtain ⟨e, he, hdepth⟩ := h.state.last
  refine ⟨⟨.same e he ?_ h.state.top, h.aligned⟩, h.indent, ⟨_, rfl, ?_⟩, by simp [put]⟩
  · rw [hdepth, h.indent]
    exact hx.symm
  · exact hx.trans h.indent.symm

/-- What is written on an empty line begins it. -/
theorem put_margin (h : Stands raised d .margin s) (hx : x.position.depth = d) :
    Stands raised d .inked (s.put x) := by
  refine ⟨⟨?_, h.aligned⟩, h.indent, ⟨_, rfl, hx.trans h.indent.symm⟩, by simp [put]⟩
  have hdepth : (⟨x, x.text.toList.reverse, s.top⟩ : Entry).depth = s.indent :=
    hx.trans h.indent.symm
  rcases h.state.top with ⟨rest, htop⟩ | ⟨hentries, htop, hindent⟩
  · exact .line rest (by rw [hdepth]; exact htop)
  · exact .first hentries htop (hdepth.trans hindent)

theorem put (h : Stands raised d .loose s) (hx : x.position.depth = d) :
    Stands raised d .inked (s.put x) := by
  rcases h.state with hs | hs
  · exact put_inked ⟨h.aligned, h.indent, hs⟩ hx
  · exact put_margin ⟨h.aligned, h.indent, hs⟩ hx

theorem settle (h : Stands raised d .inked s) (glued : Bool) :
    Stands raised d .filled (s.settle glued) :=
  ⟨h.aligned, h.indent, ⟨h.state.last, h.state.top⟩, rfl⟩

theorem fresh_inked (h : Stands raised d .inked s) : Stands raised d .inked s.fresh :=
  ⟨h.aligned, h.indent, h.state.last, h.state.top⟩

theorem fresh (h : Stands raised d .loose s) : Stands raised d .loose s.fresh := by
  refine ⟨h.aligned, h.indent, h.state.imp (fun hs => ⟨hs.last, hs.top⟩) fun hs => ?_⟩
  exact ⟨rfl, Tail.start_ne_word, hs.top⟩

theorem gap_inked (h : Stands raised d .inked s) : Stands raised d .inked s.gap := by
  unfold Sheet.gap
  split
  · refine ⟨h.aligned, h.indent, h.state.last, ?_⟩
    simpa [space] using h.state.top
  · exact h

theorem gap (h : Stands raised d .loose s) : Stands raised d .loose s.gap := by
  rcases h.state with hs | hs
  · exact (gap_inked ⟨h.aligned, h.indent, hs⟩).mono rfl
  · rw [Sheet.gap, if_neg hs.tail]
    exact h

/-- A supplied text between a gap and the end of its fragment. -/
theorem supply (h : Stands raised d .loose s) (hx : x.position.depth = d) (glued : Bool) :
    Stands raised d .filled ((s.gap.put x).settle glued) := (h.gap.put hx).settle glued

theorem newline (h : Stands raised d .begun s) : Stands raised d .margin s.newline := by
  rcases h.state with ⟨hs, hline⟩ | hs
  · have hnewline : s.newline = { s with
        top := margin s.indent ++ '\n' :: s.top, tail := .start, lineStart := true } := by
      simp [Sheet.newline, hline, space]
    rw [hnewline]
    refine ⟨h.aligned, h.indent, rfl, Tail.start_ne_word, .inl ⟨s.top, ?_⟩⟩
    rw [Entry.level_of_head hs.last]
  · rw [Sheet.newline, if_pos hs.lineStart]
    exact ⟨h.aligned, h.indent, hs⟩

/-- Taking back a space that follows a word leaves the line where it is. -/
theorem drop_one (h : Stands raised d .inked s) {c : Char} {rest : List Char}
    (hink : s.ink = ' ' :: c :: rest) (hc : Text.isBlank c = false) :
    Stands raised d .inked (s.drop 1) := by
  cases htop : s.top with
  | cons b top =>
    have hdrop : s.drop 1 = { s with top := top } := by simp [drop, htop]
    rw [hdrop]
    refine ⟨h.aligned, h.indent, h.state.last, fun hin => h.state.top ?_⟩
    rw [htop]
    exact List.mem_cons_of_mem b hin
  | nil =>
    have hdrop : s.drop 1 = { s with entries := Entry.dropAll 1 s.entries } := by
      simp [drop, htop]
    rw [ink, htop, List.nil_append] at hink
    rw [hdrop]
    refine ⟨Entry.alignedAll_dropAll h.aligned hink hc, h.indent, ?_, h.state.top⟩
    obtain ⟨e, he, hdepth⟩ := h.state.last
    cases hentries : s.entries with
    | nil => simp [hentries] at he
    | cons e' older =>
      obtain rfl : e' = e := by simpa [hentries] using he
      exact ⟨_, rfl, hdepth⟩

/-- A closing parenthesis may take back a space, and before other tokens one may be put. Neither is
done at a margin. -/
theorem makeRoom (h : Stands raised d .loose s) (first : Char) :
    Stands raised d .loose (s.makeRoom first) := by
  rcases h.state with hs | hs
  · have hinked : Stands raised d .inked s := ⟨h.aligned, h.indent, hs⟩
    refine mono (X := .inked) ?_ rfl
    unfold Sheet.makeRoom
    split
    · rcases Page.closeUp_cases s.ink with hsame | ⟨c, rest, hink, hc, hclose⟩
      · rwa [hsame, backTo_self]
      · have hback : s.backTo (Page.closeUp s.ink) = s.drop 1 := by
          rw [backTo, hclose, hink]
          simp
        rw [hback]
        exact hinked.drop_one hink hc
    · split
      · refine ⟨h.aligned, h.indent, hs.last, ?_⟩
        simpa [space] using hs.top
      · exact hinked
  · rw [hs.makeRoom first]
    exact h

theorem token (h : Stands raised d .loose s) (hx : x.position.depth = d) (hne : x.text ≠ "") :
    Stands raised d .filled (s.token x) := by
  cases htext : x.text.toList with
  | nil => exact absurd (String.toList_eq_nil_iff.1 htext) hne
  | cons first rest =>
    rw [s.token_eq htext]
    have hput := (h.makeRoom first).put hx
    exact ⟨hput.aligned, hput.indent, ⟨hput.state.last, hput.state.top⟩, rfl⟩

/-- An empty token leaves the line as it is. -/
theorem token_any (h : Stands raised d X s) (hfilled : LineState.filled.within X = true)
    (hloose : X.within .loose = true) (hx : x.position.depth = d) :
    Stands raised d X (s.token x) := by
  by_cases hne : x.text = ""
  · rw [s.token_eq_self (by rw [hne]; rfl)]
    exact h
  · exact ((h.mono hloose).token hx hne).mono hfilled

theorem delimiter_break (h : Stands raised d .begun s) (hx : x.position.depth = d)
    {kind : DelimiterKind} (hkind : kind.breaksLine = true) :
    Stands raised d .margin (s.delimiter true x kind) := by
  rw [Sheet.delimiter, if_pos (by simp [hkind])]
  exact (h.token_any rfl rfl hx).newline

/-- A group is entered on a line with entries. -/
theorem enter (h : Stands raised d .filled s) (hraised : raised = true → 0 < d) :
    Stands raised (d + 1) .margin (s.enter true) := by
  obtain ⟨hs, hline⟩ := h.state
  have henter : s.enter true = { s with
      top := margin (s.indent + 1) ++ '\n' :: s.top, tail := .start, indent := s.indent + 1,
      lineStart := true } := by
    simp [Sheet.enter, Sheet.newline, setIndent, hline, space]
  rw [henter]
  refine ⟨h.aligned, congrArg (· + 1) h.indent, rfl, Tail.start_ne_word, .inl ⟨s.top, ?_⟩⟩
  rw [Entry.level_of_not_flat fun hr => ?_]
  exact Entry.flat_eq_false hs.last (h.indent ▸ hraised hr)

/-- In a raised layout, the first group is entered after a line break. -/
theorem enter_raised (h : Stands true 0 .filled s) (hflat : Entry.flat s.entries = true) :
    Stands true 1 .margin (s.newline.enter true) := by
  obtain ⟨hs, hline⟩ := h.state
  have henter : s.newline.enter true = { s with
      top := margin 0 ++ '\n' :: s.top, tail := .start, indent := 1, lineStart := true } := by
    simp [Sheet.enter, Sheet.newline, setIndent, hline, space, h.indent]
  rw [henter]
  refine ⟨h.aligned, rfl, rfl, Tail.start_ne_word, .inl ⟨s.top, ?_⟩⟩
  simp [Entry.level, hflat]

/-- A group is left. The line that follows begins at the margin outside. -/
theorem exit (h : Stands raised (d + 1) .begun s)
    (hraised : raised = true → 0 < d → Entry.flat s.entries = false) :
    Stands raised d .margin (s.exit true) := by
  have hlevel : Entry.level raised d s.entries = d := by
    by_cases hd : d = 0
    · rw [hd, Entry.level_zero]
    · exact Entry.level_of_not_flat fun hr => hraised hr (by omega)
  have hindent : s.indent - 1 = d := by rw [h.indent]; rfl
  rcases h.state with ⟨hs, hline⟩ | hs
  · have hexit : s.exit true = { s with
        top := margin d ++ '\n' :: s.top, tail := .start, indent := d, lineStart := true } := by
      simp [Sheet.exit, Sheet.newline, setIndent, hline, space, hindent]
    rw [hexit]
    exact ⟨h.aligned, rfl, rfl, Tail.start_ne_word, .inl ⟨s.top, by rw [hlevel]⟩⟩
  · obtain ⟨rest, htop⟩ := hs.top.resolve_right fun hnil => by
      rw [h.indent] at hnil
      cases hnil.2.2
    have hink : (s.setIndent d).ink.dropWhile (· == ' ') =
        '\n' :: rest ++ Entry.charsAll s.entries := by
      have hs' : (s.setIndent d).ink = margin (Entry.level raised s.indent s.entries) ++
          '\n' :: (rest ++ Entry.charsAll s.entries) := by
        simp [setIndent, ink, htop]
      rw [hs', Page.dropWhile_line fun _ => Page.eq_space_of_mem_margin]
      rfl
    have hexit : s.exit true = { s with top := margin d ++ '\n' :: rest, indent := d } := by
      rw [Sheet.exit, if_pos rfl, if_pos hs.lineStart, hindent, reindent_eq _ hink]
      exact congrArg (·.space (margin d)) ((s.setIndent d).backTo_top htop)
    rw [hexit]
    exact ⟨h.aligned, rfl, hs.lineStart, hs.tail, .inl ⟨rest, by rw [hlevel]⟩⟩

end Stands

end Sheet

end PreparedSql
