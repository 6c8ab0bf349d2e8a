import PreparedSql.Proofs.Layout.Ink

/-!
# Sheets

A page knows the characters written on it, but not where they come from. A *sheet* is a page that
remembers: each text written on it is an entry of its own, with the white space that was put before
it and with the position in the template that it was written for. Laying out may take spaces back,
also spaces at the end of a text, so an entry tells what is left of its text.

Every operation of a page has its counterpart on sheets, and forgetting where the characters come
from takes one to the other (`page_token` and so on).
-/

namespace PreparedSql

/-- A leg of the way from the root of a tree of fragments to a position in it. -/
inductive Leg where
  /-- To a fragment of a list, counted from zero. -/
  | fragment (index : Nat)
  /-- Into an indented group. -/
  | indented
  /-- Into a row of a repetition. -/
  | row (index : Nat)
  /-- Between two rows of a repetition. -/
  | between
deriving DecidableEq, Repr

def Leg.isRow : Leg → Bool
  | .row _ => true
  | .fragment _ | .indented | .between => false

/-- A position in a tree of fragments: the legs from the root to it. -/
abbrev Position := List Leg

namespace Position

/-- How many indented groups enclose a position. -/
def depth (c : Position) : Nat := c.count .indented

/-- Whether two positions are in different rows of one repetition: the first legs in which they
differ lead into rows. -/
def straddles : Position → Position → Bool
  | t :: c, u :: d => if t = u then straddles c d else t.isRow && u.isRow
  | _, _ => false

@[simp] theorem depth_fragment (c : Position) (n : Nat) : depth (c ++ [.fragment n]) = depth c := by
  simp [depth]

@[simp] theorem depth_indented (c : Position) : depth (c ++ [.indented]) = depth c + 1 := by
  simp [depth]

@[simp] theorem depth_row (c : Position) (n : Nat) : depth (c ++ [.row n]) = depth c := by
  simp [depth]

@[simp] theorem depth_between (c : Position) : depth (c ++ [.between]) = depth c := by
  simp [depth]

theorem straddles_append_left {c d : Position} (h : straddles c d = true) (e : Position) :
    straddles (c ++ e) d = true := by
  fun_induction straddles c d with
  | case1 t c d ih => simpa [straddles] using ih h
  | case2 t c u d hne => simpa [straddles, hne] using h
  | case3 => cases h

theorem straddles_append_right {c d : Position} (h : straddles c d = true) (e : Position) :
    straddles c (d ++ e) = true := by
  fun_induction straddles c d with
  | case1 t c d ih => simpa [straddles] using ih h
  | case2 t c u d hne => simpa [straddles, hne] using h
  | case3 => cases h

/-- Legs other than those into rows make no difference. -/
theorem straddles_append_leg (c d : Position) {t : Leg} (h : t.isRow = false) :
    straddles c (d ++ [t]) = straddles c d := by
  induction d generalizing c with
  | nil =>
    cases c with
    | nil => rfl
    | cons u c => by_cases hu : u = t <;> simp [straddles, hu, h]
  | cons u d ih =>
    cases c with
    | nil => rfl
    | cons v c => simp [straddles, ih]

/-- Different rows of one repetition. -/
theorem straddles_row (c : Position) {i j : Nat} (h : i ≠ j) :
    straddles (c ++ [.row i]) (c ++ [.row j]) = true := by
  induction c with
  | nil => simp [straddles, h, Leg.isRow]
  | cons t c ih => simpa [straddles] using ih

end Position

/-- A text that is written in laying out, and what it is written for. -/
structure Imprint where
  text : String
  /-- Whether it is a token of the template, as opposed to a supplied text. -/
  isToken : Bool
  position : Position
deriving DecidableEq, Repr

/-- Whether it is a text that stands between two rows. -/
def Imprint.separates (x : Imprint) : Bool := !x.isToken && x.position.getLast? == some .between

/-- An imprint on a sheet. Characters are listed newest first. -/
structure Entry where
  imprint : Imprint
  /-- What is left of the text. -/
  ink : List Char
  /-- The white space before it. -/
  below : List Char
deriving DecidableEq, Repr

namespace Entry

def chars (e : Entry) : List Char := e.ink ++ e.below

/-- What entries in a row show, newest first. -/
def charsAll (es : List Entry) : List Char := es.flatMap chars

@[simp] theorem charsAll_nil : charsAll [] = [] := rfl

@[simp] theorem charsAll_cons (e : Entry) (es : List Entry) :
    charsAll (e :: es) = e.ink ++ (e.below ++ charsAll es) := by
  simp [charsAll, chars]

@[simp] theorem charsAll_append (es fs : List Entry) :
    charsAll (es ++ fs) = charsAll es ++ charsAll fs := List.flatMap_append

/-- Takes back the newest characters. -/
def dropAll : (n : Nat) → List Entry → List Entry
  | _, [] => []
  | n, e :: es =>
    { e with ink := e.ink.drop n, below := e.below.drop (n - e.ink.length) } ::
      dropAll (n - e.ink.length - e.below.length) es

@[simp] theorem dropAll_zero (es : List Entry) : dropAll 0 es = es := by
  induction es with
  | nil => rfl
  | cons e es ih => simp [dropAll, ih]

theorem charsAll_dropAll (n : Nat) (es : List Entry) :
    charsAll (dropAll n es) = (charsAll es).drop n := by
  induction es generalizing n with
  | nil => simp [dropAll]
  | cons e es ih => simp [dropAll, ih, List.drop_append, Nat.sub_sub]

theorem imprints_dropAll (n : Nat) (es : List Entry) :
    (dropAll n es).map imprint = es.map imprint := by
  induction es generalizing n with
  | nil => rfl
  | cons e es ih => simp [dropAll, ih]

/-- Taking back from an entry of which something is left, nothing older is touched. -/
theorem of_dropAll_eq {n : Nat} {es newer older : List Entry} {e : Entry}
    (h : dropAll n es = newer ++ e :: older) (hink : e.ink ≠ []) :
    ∃ newer' e', es = newer' ++ e' :: older ∧ e'.imprint = e.imprint ∧ e'.below = e.below ∧
      e.ink <:+ e'.ink := by
  induction es generalizing n newer with
  | nil => simp [dropAll] at h
  | cons e' es ih =>
    cases newer with
    | nil =>
      obtain ⟨rfl, rfl⟩ := List.cons.inj h
      have hn : n < e'.ink.length := by
        simpa [List.drop_eq_nil_iff] using hink
      have hsub : n - e'.ink.length = 0 := by omega
      exact ⟨[], e', by simp [hsub], rfl, by simp [hsub], List.drop_suffix n e'.ink⟩
    | cons f newer =>
      obtain ⟨-, hrest⟩ := List.cons.inj h
      obtain ⟨newer', e', rfl, he⟩ := ih hrest
      exact ⟨_ :: newer', e', rfl, he⟩

/-- Nothing of the text is lost but spaces at its end, and only white space is put before it. -/
structure Sound (e : Entry) : Prop where
  below : ∀ c ∈ e.below, Text.isBlank c = true
  left : ∃ spaces, (∀ c ∈ spaces, c = ' ') ∧ e.imprint.text.toList.reverse = spaces ++ e.ink

/-- Entries stay sound when spaces are taken back. -/
theorem sound_dropAll {n : Nat} {es : List Entry} (h : ∀ e ∈ es, e.Sound)
    (hspaces : ∀ c ∈ (charsAll es).take n, c = ' ') : ∀ e ∈ dropAll n es, e.Sound := by
  induction es generalizing n with
  | nil => simp [dropAll]
  | cons e es ih =>
    obtain ⟨he, hes⟩ := List.forall_mem_cons.1 h
    simp only [charsAll_cons, List.take_append, List.mem_append] at hspaces
    rw [dropAll, List.forall_mem_cons]
    constructor
    · obtain ⟨spaces, hall, htext⟩ := he.left
      refine ⟨fun c hc => he.below c (List.mem_of_mem_drop hc), spaces ++ e.ink.take n, ?_, ?_⟩
      · exact List.forall_mem_append.2 ⟨hall, fun c hc => hspaces c (.inl hc)⟩
      · rw [List.append_assoc, List.take_append_drop, htext]
    · exact ih hes fun c hc => hspaces c (.inr (.inr hc))

end Entry

/-- A space is taken back only behind a character other than white space. -/
theorem Page.closeUp_cases (ink : List Char) :
    Page.closeUp ink = ink ∨ ∃ c rest, ink = ' ' :: c :: rest ∧ Text.isBlank c = false ∧
      Page.closeUp ink = c :: rest := by
  unfold Page.closeUp
  split
  · next c rest =>
    split
    · exact .inl rfl
    · next hblank => exact .inr ⟨c, rest, rfl, Bool.eq_false_iff.2 hblank, rfl⟩
  · exact .inl rfl

/-- A page that remembers where its characters come from. -/
structure Sheet where
  /-- What is written, newest first. -/
  entries : List Entry := []
  /-- White space since the last entry, newest first. -/
  top : List Char := []
  tail : Tail := .start
  indent : Nat := 0
  lineStart : Bool := true
deriving DecidableEq, Repr

namespace Sheet

def ink (s : Sheet) : List Char := s.top ++ Entry.charsAll s.entries

/-- Forgets where the characters come from. -/
def page (s : Sheet) : Page := ⟨s.ink, s.tail, s.indent, s.lineStart⟩

/-- What was written, in order. -/
def imprints (s : Sheet) : List Imprint := (s.entries.map Entry.imprint).reverse

/-! ## Operations -/

/-- Adds white space. -/
def space (s : Sheet) (cs : List Char) : Sheet := { s with top := cs ++ s.top }

/-- Writes a text as it is. -/
def put (s : Sheet) (x : Imprint) : Sheet :=
  { s with entries := ⟨x, x.text.toList.reverse, s.top⟩ :: s.entries, top := [] }

/-- Takes back the newest characters. -/
def drop (s : Sheet) (n : Nat) : Sheet :=
  { s with entries := Entry.dropAll (n - s.top.length) s.entries, top := s.top.drop n }

/-- Takes back what was written over `rest`. -/
def backTo (s : Sheet) (rest : List Char) : Sheet := s.drop (s.ink.length - rest.length)

def makeRoom (s : Sheet) (first : Char) : Sheet :=
  if first == ')' then s.backTo (Page.closeUp s.ink)
  else if s.tail = .word && !Page.attaches first then s.space [' ']
  else s

def token (s : Sheet) (x : Imprint) : Sheet :=
  match x.text.toList with
  | [] => s
  | first :: _ =>
    { (s.makeRoom first).put x with tail := .ofInk x.text.toList.reverse, lineStart := false }

def gap (s : Sheet) : Sheet :=
  if s.tail = .word then { s.space [' '] with tail := .space } else s

def settle (s : Sheet) (glued : Bool) : Sheet :=
  { s with tail := if glued then .glue else .word, lineStart := false }

def fresh (s : Sheet) : Sheet := { s with tail := .start, lineStart := true }

def setIndent (s : Sheet) (indent : Nat) : Sheet := { s with indent }

def newline (s : Sheet) : Sheet :=
  if s.lineStart then s
  else
    { s.space (Page.margin s.indent ++ ['\n']) with
      tail := .start, lineStart := true }

def reindent (s : Sheet) : Sheet :=
  match s.ink.dropWhile (· == ' ') with
  | '\n' :: rest => (s.backTo ('\n' :: rest)).space (Page.margin s.indent)
  | _ => s

def delimiter (s : Sheet) (pretty : Bool) (x : Imprint) (kind : DelimiterKind) : Sheet :=
  if pretty && kind.breaksLine then (s.token x).newline else s.token x

def enter (s : Sheet) (pretty : Bool) : Sheet :=
  if pretty then (s.setIndent (s.indent + 1)).newline else s

def exit (s : Sheet) (pretty : Bool) : Sheet :=
  if pretty then
    if s.lineStart then (s.setIndent (s.indent - 1)).reindent
    else (s.setIndent (s.indent - 1)).newline
  else s

/-! ## Ink of the operations -/

@[simp] theorem ink_space (s : Sheet) (cs : List Char) : (s.space cs).ink = cs ++ s.ink := by
  simp [space, ink]

@[simp] theorem ink_drop (s : Sheet) (n : Nat) : (s.drop n).ink = s.ink.drop n := by
  simp [drop, ink, Entry.charsAll_dropAll, List.drop_append]

theorem ink_backTo {s : Sheet} {rest : List Char} (h : rest <:+ s.ink) :
    (s.backTo rest).ink = rest := by
  rw [backTo, ink_drop, ← List.suffix_iff_eq_drop.1 h]

theorem closeUp_suffix (ink : List Char) : Page.closeUp ink <:+ ink := by
  rcases Page.closeUp_cases ink with h | ⟨c, rest, rfl, -, h⟩
  · exact ⟨[], h⟩
  · exact ⟨[' '], congrArg (' ' :: ·) h⟩

@[simp] theorem ink_makeRoom (s : Sheet) (first : Char) :
    (s.makeRoom first).ink = Page.makeRoom s.tail first s.ink := by
  unfold makeRoom Page.makeRoom
  split
  · exact ink_backTo (closeUp_suffix s.ink)
  · split
    · rw [ink_space]
      rfl
    · rfl

@[simp] theorem imprints_put (s : Sheet) (x : Imprint) :
    (s.put x).imprints = s.imprints ++ [x] := by
  simp [put, imprints]

@[simp] theorem imprints_drop (s : Sheet) (n : Nat) : (s.drop n).imprints = s.imprints := by
  simp [drop, imprints, Entry.imprints_dropAll]

@[simp] theorem imprints_backTo (s : Sheet) (rest : List Char) :
    (s.backTo rest).imprints = s.imprints := s.imprints_drop _

@[simp] theorem makeRoom_indent (s : Sheet) (first : Char) :
    (s.makeRoom first).indent = s.indent := by
  unfold makeRoom
  split
  · rfl
  · split <;> rfl

theorem imprints_makeRoom (s : Sheet) (first : Char) :
    (s.makeRoom first).imprints = s.imprints := by
  unfold makeRoom
  split
  · exact s.imprints_backTo _
  · split <;> rfl

/-- A token that is not empty. -/
theorem token_eq (s : Sheet) {x : Imprint} {first : Char} {rest : List Char}
    (h : x.text.toList = first :: rest) :
    s.token x = { (s.makeRoom first).put x with
      tail := .ofInk x.text.toList.reverse, lineStart := false } := by
  simp [token, h]

theorem token_eq_self (s : Sheet) {x : Imprint} (h : x.text.toList = []) : s.token x = s := by
  simp [token, h]

/-! ## Forgetting where the characters come from -/

section Page

variable (s : Sheet)

theorem page_token (x : Imprint) : (s.token x).page = s.page.token x.text := by
  cases h : x.text.toList with
  | nil => rw [s.token_eq_self h, Page.token, h]
  | cons first rest =>
    have hink := s.ink_makeRoom first
    rw [s.token_eq h, Page.token, h]
    simp only [page, ink, put] at hink ⊢
    rw [Page.mk.injEq, Entry.charsAll_cons, List.nil_append, hink, h]
    refine ⟨by simp, ?_, s.makeRoom_indent first, rfl⟩
    simp only [List.reverse_cons]
    cases rest.reverse <;> rfl

theorem page_put (x : Imprint) : (s.put x).page = s.page.write x.text := by
  simp [page, Page.write, put, ink]

theorem page_gap : s.gap.page = s.page.gap := by
  unfold gap Page.gap
  split
  · next h => simp [page, h, space, ink]
  · next h => simp [page, h]

theorem page_settle (glued : Bool) : (s.settle glued).page = s.page.settle glued := rfl

theorem page_fresh : s.fresh.page = s.page.fresh := rfl

theorem page_setIndent (indent : Nat) : (s.setIndent indent).page = { s.page with indent } := rfl

theorem page_newline : s.newline.page = s.page.newline := by
  unfold newline Page.newline
  cases h : s.lineStart <;> simp [page, h, space, ink]

/-- The line that is moved begins after the last line break. -/
theorem reindent_eq {rest : List Char} (h : s.ink.dropWhile (· == ' ') = '\n' :: rest) :
    s.reindent = (s.backTo ('\n' :: rest)).space (Page.margin s.indent) := by
  simp [reindent, h]

theorem reindent_eq_self (h : ∀ rest, s.ink.dropWhile (· == ' ') ≠ '\n' :: rest) :
    s.reindent = s := by
  unfold reindent
  split
  · next rest hrest => exact absurd hrest (h rest)
  · rfl

theorem page_reindent : s.reindent.page = s.page.reindent := by
  unfold Page.reindent
  split
  · next rest hrest =>
    have hsuffix : '\n' :: rest <:+ s.ink := hrest ▸ List.dropWhile_suffix _
    rw [s.reindent_eq hrest]
    simp only [page, ink_space, ink_backTo hsuffix]
    rfl
  · next hrest => rw [s.reindent_eq_self hrest]

theorem page_delimiter (pretty : Bool) (x : Imprint) (kind : DelimiterKind) :
    (s.delimiter pretty x kind).page = s.page.delimiter pretty x.text kind := by
  unfold delimiter Page.delimiter
  split
  · rw [page_newline, page_token]
  · exact s.page_token x

theorem page_enter (pretty : Bool) : (s.enter pretty).page = s.page.enter pretty := by
  unfold enter Page.enter
  split
  · rw [page_newline, page_setIndent]
    rfl
  · rfl

theorem page_exit (pretty : Bool) : (s.exit pretty).page = s.page.exit pretty := by
  cases pretty with
  | false => rfl
  | true =>
    cases h : s.lineStart with
    | true =>
      have hpage : s.page.exit true = { s.page with indent := s.indent - 1 }.reindent := by
        simp [Page.exit, page, h]
      rw [hpage, exit, if_pos rfl, if_pos h, page_reindent, page_setIndent]
    | false =>
      have hpage : s.page.exit true = { s.page with indent := s.indent - 1 }.newline := by
        simp [Page.exit, page, h]
      rw [hpage, exit, if_pos rfl, if_neg (by simp [h]), page_newline, page_setIndent]

end Page

/-! ## What is written -/

section Imprints

variable (s : Sheet)

theorem imprints_token (x : Imprint) :
    (s.token x).imprints = s.imprints ++ if x.text = "" then [] else [x] := by
  cases h : x.text.toList with
  | nil =>
    have hempty : x.text = "" := String.toList_eq_nil_iff.1 h
    rw [s.token_eq_self h, if_pos hempty, List.append_nil]
  | cons first rest =>
    have hne : x.text ≠ "" := fun hempty => by simp [hempty] at h
    rw [s.token_eq h, if_neg hne]
    exact ((s.makeRoom first).imprints_put x).trans (by rw [imprints_makeRoom])

@[simp] theorem imprints_gap : s.gap.imprints = s.imprints := by
  unfold gap
  split <;> rfl

@[simp] theorem imprints_newline : s.newline.imprints = s.imprints := by
  unfold newline
  split <;> rfl

@[simp] theorem imprints_reindent : s.reindent.imprints = s.imprints := by
  unfold reindent
  split
  · exact s.imprints_backTo _
  · rfl

theorem imprints_delimiter (pretty : Bool) (x : Imprint) (kind : DelimiterKind) :
    (s.delimiter pretty x kind).imprints = s.imprints ++ if x.text = "" then [] else [x] := by
  unfold delimiter
  split
  · rw [imprints_newline, imprints_token]
  · exact s.imprints_token x

@[simp] theorem imprints_enter (pretty : Bool) : (s.enter pretty).imprints = s.imprints := by
  unfold enter
  split
  · exact imprints_newline _
  · rfl

@[simp] theorem imprints_exit (pretty : Bool) : (s.exit pretty).imprints = s.imprints := by
  unfold exit
  split
  · split
    · exact imprints_reindent _
    · exact imprints_newline _
  · rfl

end Imprints

/-! ## Soundness -/

/-- White space is all that is on a sheet beside what is left of its texts. -/
structure Sound (s : Sheet) : Prop where
  top : ∀ c ∈ s.top, Text.isBlank c = true
  entries : ∀ e ∈ s.entries, e.Sound

namespace Sound

variable {s : Sheet}

theorem space (h : s.Sound) (cs : List Char) (hblank : ∀ c ∈ cs, Text.isBlank c = true) :
    (s.space cs).Sound :=
  ⟨List.forall_mem_append.2 ⟨hblank, h.top⟩, h.entries⟩

theorem put (h : s.Sound) (x : Imprint) : (s.put x).Sound :=
  ⟨nofun, List.forall_mem_cons.2 ⟨⟨h.top, [], nofun, rfl⟩, h.entries⟩⟩

theorem backTo (h : s.Sound) (spaces : List Char) {rest : List Char}
    (hspaces : ∀ c ∈ spaces, c = ' ') (hink : s.ink = spaces ++ rest) : (s.backTo rest).Sound := by
  have hlength : s.ink.length - rest.length = spaces.length := by simp [hink]
  have htake : (s.top ++ Entry.charsAll s.entries).take spaces.length = spaces := by
    rw [← ink, hink, List.take_left]
  rw [List.take_append] at htake
  rw [Sheet.backTo, hlength]
  refine ⟨fun c hc => h.top c (List.mem_of_mem_drop hc), Entry.sound_dropAll h.entries ?_⟩
  exact fun c hc => hspaces c (htake ▸ List.mem_append_right _ hc)

theorem makeRoom (h : s.Sound) (first : Char) : (s.makeRoom first).Sound := by
  unfold Sheet.makeRoom
  split
  · rcases Page.closeUp_cases s.ink with hsame | ⟨c, rest, hink, -, hclose⟩
    · rw [hsame]
      exact h.backTo [] nofun rfl
    · rw [hclose]
      exact h.backTo [' '] (List.forall_mem_singleton.2 rfl) hink
  · split
    · exact h.space [' '] (List.forall_mem_singleton.2 (by decide))
    · exact h

theorem token (h : s.Sound) (x : Imprint) : (s.token x).Sound := by
  cases hx : x.text.toList with
  | nil => rwa [s.token_eq_self hx]
  | cons first rest =>
    rw [s.token_eq hx]
    exact ⟨((h.makeRoom first).put x).top, ((h.makeRoom first).put x).entries⟩

theorem gap (h : s.Sound) : s.gap.Sound := by
  unfold Sheet.gap
  split
  · have hspace := h.space [' '] (List.forall_mem_singleton.2 (by decide))
    exact ⟨hspace.top, hspace.entries⟩
  · exact h

theorem blank_of_mem_margin {c : Char} {indent : Nat} (h : c ∈ Page.margin indent) :
    Text.isBlank c = true := by
  rw [Page.eq_space_of_mem_margin h]
  decide

theorem newline (h : s.Sound) : s.newline.Sound := by
  unfold Sheet.newline
  split
  · exact h
  · have hspace := h.space (Page.margin s.indent ++ ['\n']) (List.forall_mem_append.2
      ⟨fun c hc => blank_of_mem_margin hc, List.forall_mem_singleton.2 (by decide)⟩)
    exact ⟨hspace.top, hspace.entries⟩

theorem reindent (h : s.Sound) : s.reindent.Sound := by
  unfold Sheet.reindent
  split
  · next rest hrest =>
    obtain ⟨spaces, hspaces, hink⟩ := Page.exists_spaces_of_dropWhile hrest
    exact (h.backTo spaces hspaces hink).space _ fun c hc => blank_of_mem_margin hc
  · exact h

theorem delimiter (h : s.Sound) (pretty : Bool) (x : Imprint) (kind : DelimiterKind) :
    (s.delimiter pretty x kind).Sound := by
  unfold Sheet.delimiter
  split
  · exact (h.token x).newline
  · exact h.token x

theorem setIndent (h : s.Sound) (indent : Nat) : (s.setIndent indent).Sound := ⟨h.top, h.entries⟩

theorem enter (h : s.Sound) (pretty : Bool) : (s.enter pretty).Sound := by
  unfold Sheet.enter
  split
  · exact (h.setIndent _).newline
  · exact h

theorem exit (h : s.Sound) (pretty : Bool) : (s.exit pretty).Sound := by
  unfold Sheet.exit
  split
  · split
    · exact (h.setIndent _).reindent
    · exact (h.setIndent _).newline
  · exact h

end Sound

theorem sound_empty : Sound {} := ⟨by simp, by simp⟩

end Sheet

end PreparedSql
