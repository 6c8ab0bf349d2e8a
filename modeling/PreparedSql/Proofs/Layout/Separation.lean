import PreparedSql.Proofs.Layout.Sheet

/-!
# Pieces kept apart

Two pieces in a row must not run together: where the first one ends in a word, white space follows,
unless the second one is a token that attaches to what is before it. Pieces in different rows of a
repetition are left to the text between the rows.

A sheet is *clear* for a position when the last piece on it may be followed by any piece for that
position. It is *ready* when it is clear or its tail says that white space is due. What an operation
does to the two is all that has to be known about it (`Sheet.Keeps`).
-/

namespace PreparedSql

theorem Tail.exists_of_ofInk_eq_space {ink : List Char} (h : Tail.ofInk ink = .space) :
    ∃ b rest, ink = b :: rest ∧ Text.isBlank b = true := by
  cases ink with
  | nil => cases h
  | cons b rest =>
    refine ⟨b, rest, rfl, Classical.byContradiction fun hblank => ?_⟩
    simp only [Tail.ofInk, if_neg hblank] at h
    split at h <;> cases h

namespace Entry

/-- Whether it is a piece of the written text: something of it is left, and it is not a text between
rows. -/
def shows (e : Entry) : Bool := !e.ink.isEmpty && !e.imprint.separates

/-- Whether it ends in a character other than white space, an opening parenthesis or a point. -/
def binds (e : Entry) : Bool :=
  match e.ink with
  | [] => false
  | last :: _ => !(Text.isBlank last || last == '(' || last == '.')

/-- Whether it is a token that may follow a word directly. -/
def attaches (e : Entry) : Bool :=
  e.imprint.isToken &&
    match e.imprint.text.toList with
    | [] => false
    | first :: _ =>
      first == ')' || (Text.isBlank first || first == ',' || first == '.' || first == ';')

theorem binds_iff (e : Entry) : e.binds = true ↔ Tail.ofInk e.ink = .word := by
  cases h : e.ink with
  | nil => simp [binds, h, Tail.ofInk]
  | cons c rest =>
    simp only [binds, h, Tail.ofInk]
    cases Text.isBlank c <;> cases c == '(' <;> cases c == '.' <;> simp

end Entry

namespace Sheet

/-- White space stands between pieces in a row that would run together without it. -/
def Separated (s : Sheet) : Prop :=
  ∀ newer y between x older, s.entries = newer ++ y :: (between ++ x :: older) →
    x.shows = true → y.shows = true → (∀ e ∈ between, e.shows = false) →
    x.imprint.position.straddles y.imprint.position = false → x.binds = true → y.attaches = false →
    ∃ c ∈ y.below ++ Entry.charsAll between, Text.isBlank c = true

/-- The last piece may be followed by any piece for the given position. -/
def Clear (c : Position) (s : Sheet) : Prop :=
  ∀ between x older, s.entries = between ++ x :: older →
    x.shows = true → (∀ e ∈ between, e.shows = false) →
    x.imprint.position.straddles c = false → x.binds = true →
    ∃ b ∈ s.top ++ Entry.charsAll between, Text.isBlank b = true

/-- So it may, or white space is put before the next piece. -/
def Ready (c : Position) (s : Sheet) : Prop := s.tail = .word ∨ s.Clear c

variable {s s' s'' : Sheet} {c d : Position} {x : Imprint}

namespace Clear

theorem congr (h : s.Clear c) (hentries : s'.entries = s.entries) (htop : s'.top = s.top) :
    s'.Clear c := by
  unfold Clear
  rwa [hentries, htop]

theorem append (h : s.Clear c) (d : Position) : s.Clear (c ++ d) := by
  intro between x older hentries hshows hbetween hstraddles
  refine h between x older hentries hshows hbetween (Bool.eq_false_iff.2 fun hc => ?_)
  rw [Position.straddles_append_right hc] at hstraddles
  cases hstraddles

theorem of_append_leg {t : Leg} (ht : t.isRow = false) (h : s.Clear (c ++ [t])) : s.Clear c := by
  intro between x older hentries hshows hbetween hstraddles
  exact h between x older hentries hshows hbetween
    (by rwa [Position.straddles_append_leg _ _ ht])

theorem space (h : s.Clear c) (cs : List Char) : (s.space cs).Clear c := by
  intro between x older hentries hshows hbetween hstraddles hbinds
  obtain ⟨b, hb, hblank⟩ := h between x older hentries hshows hbetween hstraddles hbinds
  refine ⟨b, ?_, hblank⟩
  show b ∈ (cs ++ s.top) ++ _
  rw [List.append_assoc]
  exact List.mem_append_right cs hb

/-- White space at the end is enough. -/
theorem of_space (h : Tail.ofInk s.ink = .space) (c : Position) : s.Clear c := by
  intro between x older hentries hshows _ _ hbinds
  obtain ⟨b, rest, hink, hblank⟩ := Tail.exists_of_ofInk_eq_space h
  have hsplit : s.ink = (s.top ++ Entry.charsAll between) ++
      (x.ink ++ (x.below ++ Entry.charsAll older)) := by
    simp [ink, hentries]
  rw [hink] at hsplit
  cases hchars : s.top ++ Entry.charsAll between with
  | cons b' chars =>
    rw [hchars] at hsplit
    obtain ⟨rfl, -⟩ := List.cons.inj hsplit
    exact ⟨b, List.mem_cons_self, hblank⟩
  | nil =>
    -- Then the last character is that of the piece itself, which does not bind.
    rw [hchars, List.nil_append] at hsplit
    cases hx : x.ink with
    | nil => simp [Entry.binds, hx] at hbinds
    | cons last ink =>
      rw [hx] at hsplit
      obtain ⟨rfl, -⟩ := List.cons.inj hsplit
      simp [Entry.binds, hx, hblank] at hbinds

/-- A piece for a position in another row, or one that does not bind, may be followed by any. -/
theorem put_shown (hshows : (⟨x, x.text.toList.reverse, s.top⟩ : Entry).shows = true)
    (h : x.position.straddles c = true ∨ Tail.ofInk x.text.toList.reverse ≠ .word) :
    (s.put x).Clear c := by
  intro between y older hentries _ hbetween hstraddles hbinds
  cases between with
  | nil =>
    obtain ⟨rfl, -⟩ := List.cons.inj hentries
    rcases h with h | h
    · rw [h] at hstraddles
      cases hstraddles
    · exact absurd ((Entry.binds_iff _).1 hbinds) h
  | cons e between =>
    obtain ⟨rfl, -⟩ := List.cons.inj hentries
    rw [hbetween _ List.mem_cons_self] at hshows
    cases hshows

/-- What is not a piece changes nothing. -/
theorem put_hidden (h : s.Clear c)
    (hhidden : (⟨x, x.text.toList.reverse, s.top⟩ : Entry).shows = false) : (s.put x).Clear c := by
  intro between y older hentries hshows hbetween hstraddles hbinds
  cases between with
  | nil =>
    obtain ⟨rfl, -⟩ := List.cons.inj hentries
    rw [hhidden] at hshows
    cases hshows
  | cons e between =>
    obtain ⟨rfl, hrest⟩ := List.cons.inj hentries
    obtain ⟨b, hb, hblank⟩ := h between y older hrest hshows
      (fun e he => hbetween e (List.mem_cons_of_mem _ he)) hstraddles hbinds
    refine ⟨b, ?_, hblank⟩
    rw [Entry.charsAll_cons]
    exact List.mem_append_right _ (List.mem_append_right _ hb)

/-- A piece for a position in another row hides what was before it. -/
theorem put_straddling (h : s.Clear d) (hstraddles : x.position.straddles d = true) :
    (s.put x).Clear d := by
  by_cases hshows : (⟨x, x.text.toList.reverse, s.top⟩ : Entry).shows = true
  · exact put_shown hshows (.inl hstraddles)
  · exact h.put_hidden (Bool.eq_false_iff.2 hshows)

end Clear

namespace Separated

theorem congr (h : s.Separated) (hentries : s'.entries = s.entries) : s'.Separated := by
  unfold Separated
  rwa [hentries]

theorem put (h : s.Separated)
    (hnew : (⟨x, x.text.toList.reverse, s.top⟩ : Entry).shows = true →
      (⟨x, x.text.toList.reverse, s.top⟩ : Entry).attaches = false → s.Clear x.position) :
    (s.put x).Separated := by
  intro newer y between z older hentries hz hy hbetween hstraddles hbinds hattaches
  cases newer with
  | nil =>
    obtain ⟨rfl, hrest⟩ := List.cons.inj hentries
    exact hnew hy hattaches between z older hrest hz hbetween hstraddles hbinds
  | cons e newer =>
    exact h newer y between z older (List.cons.inj hentries).2 hz hy hbetween hstraddles hbinds
      hattaches

/-- Taking characters back leaves what is before a piece, as long as something is left of it. -/
theorem drop (h : s.Separated) (n : Nat) : (s.drop n).Separated := by
  intro newer y between x older hentries hx hy hbetween hstraddles hbinds hattaches
  have hink : y.ink ≠ [] := by
    intro hnil
    simp [Entry.shows, hnil] at hy
  obtain ⟨newer', y', hs, himprint, hbelow, hsuffix⟩ := Entry.of_dropAll_eq hentries hink
  have hy' : y'.shows = true := by
    have hne : y'.ink ≠ [] := fun hnil => hink (List.suffix_nil.1 (hnil ▸ hsuffix))
    simp only [Entry.shows, himprint, Bool.and_eq_true] at hy ⊢
    exact ⟨by simpa using hne, hy.2⟩
  have hsame := h newer' y' between x older hs hx hy' hbetween
  rw [himprint, hbelow] at hsame
  exact hsame hstraddles hbinds (by rwa [Entry.attaches, himprint])

theorem backTo (h : s.Separated) (rest : List Char) : (s.backTo rest).Separated := h.drop _

end Separated

theorem clear_empty : Clear c {} := fun between x older hentries => by simp at hentries

theorem separated_empty : Separated {} := fun newer y between x older hentries => by
  simp at hentries

/-- What an operation for the position `c` does: pieces stay separated, the sheet stays ready for
the position, and it stays clear for positions in other rows. -/
structure Keeps (c : Position) (s s' : Sheet) : Prop where
  separated : s.Ready c → s.Separated → s'.Separated
  ready : s.Ready c → s'.Ready c
  clear : ∀ d, c.straddles d = true → s.Clear d → s'.Clear d

namespace Keeps

theorem refl (c : Position) (s : Sheet) : Keeps c s s := ⟨fun _ => id, id, fun _ _ => id⟩

theorem trans (h : Keeps c s s') (h' : Keeps c s' s'') : Keeps c s s'' where
  separated hready hsep := h'.separated (h.ready hready) (h.separated hready hsep)
  ready hready := h'.ready (h.ready hready)
  clear d hd hclear := h'.clear d hd (h.clear d hd hclear)

/-- What is done for a position inside, but not inside a row, is done for the position itself. -/
theorem of_append_leg {t : Leg} (ht : t.isRow = false) (h : Keeps (c ++ [t]) s s') :
    Keeps c s s' where
  separated hready := h.separated (hready.imp_right (·.append [t]))
  ready hready := (h.ready (hready.imp_right (·.append [t]))).imp_right (·.of_append_leg ht)
  clear d hd := h.clear d (Position.straddles_append_left hd [t])

/-- An operation that leaves white space at the end. -/
theorem of_space (hsep : s.Separated → s'.Separated) (h : Tail.ofInk s'.ink = .space) :
    Keeps c s s' :=
  ⟨fun _ => hsep, fun _ => .inr (.of_space h c), fun d _ _ => .of_space h d⟩

theorem setIndent (c : Position) (s : Sheet) (indent : Nat) : Keeps c s (s.setIndent indent) :=
  ⟨fun _ h => h.congr rfl, fun h => h.imp_right (·.congr rfl rfl), fun _ _ h => h.congr rfl rfl⟩

end Keeps

/-- A line that was begun ends in white space. -/
theorem ofInk_margin (indent : Nat) (rest : List Char) :
    Tail.ofInk (Page.margin indent ++ '\n' :: rest) = .space :=
  Page.ofInk_line (fun _ => Page.eq_space_of_mem_margin) rest

theorem keeps_newline (c : Position) (s : Sheet) : Keeps c s s.newline := by
  cases hline : s.lineStart with
  | true => simpa [newline, hline] using Keeps.refl c s
  | false =>
    refine .of_space (fun h => h.congr ?_) ?_
    · simp [newline, hline, space]
    · have hink : s.newline.ink = Page.margin s.indent ++ '\n' :: s.ink := by
        simp [newline, hline, space, ink]
      rw [hink, ofInk_margin]

theorem keeps_reindent (c : Position) (s : Sheet) : Keeps c s s.reindent := by
  unfold reindent
  split
  · next rest hrest =>
    have hsuffix : '\n' :: rest <:+ s.ink := hrest ▸ List.dropWhile_suffix _
    refine .of_space (fun h => (h.backTo _).congr rfl) ?_
    rw [ink_space, ink_backTo hsuffix, ofInk_margin]
  · exact .refl c s

theorem keeps_enter (c : Position) (s : Sheet) (pretty : Bool) : Keeps c s (s.enter pretty) := by
  unfold enter
  split
  · exact (Keeps.setIndent c s _).trans (keeps_newline c _)
  · exact .refl c s

theorem keeps_exit (c : Position) (s : Sheet) (pretty : Bool) : Keeps c s (s.exit pretty) := by
  unfold exit
  split
  · split
    · exact (Keeps.setIndent c s _).trans (keeps_reindent c _)
    · exact (Keeps.setIndent c s _).trans (keeps_newline c _)
  · exact .refl c s

/-- A gap leaves a ready sheet clear. -/
theorem clear_gap (h : s.Ready c) : s.gap.Clear c := by
  by_cases hword : s.tail = .word
  · have hink : s.gap.ink = ' ' :: s.ink := by simp [gap, hword, space, ink]
    exact .of_space (hink ▸ rfl) c
  · rw [gap, if_neg hword]
    exact h.resolve_left hword

theorem separated_gap (h : s.Separated) : s.gap.Separated := by
  unfold gap
  split
  · exact h.congr rfl
  · exact h

theorem Clear.gap (h : s.Clear c) : s.gap.Clear c := by
  unfold Sheet.gap
  split
  · exact (h.space [' ']).congr rfl rfl
  · exact h

theorem separated_makeRoom (h : s.Separated) (first : Char) : (s.makeRoom first).Separated := by
  unfold makeRoom
  split
  · exact h.backTo _
  · split
    · exact h.congr rfl
    · exact h

/-- Room is made for a character that does not attach to what is before it. -/
theorem clear_makeRoom (h : s.Ready c) {first : Char}
    (hfirst : first ≠ ')' ∧ Page.attaches first = false) : (s.makeRoom first).Clear c := by
  by_cases hword : s.tail = .word
  · have hroom : s.makeRoom first = s.space [' '] := by simp [makeRoom, hfirst, hword]
    rw [hroom]
    exact .of_space (by rw [ink_space]; rfl) c
  · have hroom : s.makeRoom first = s := by simp [makeRoom, hfirst, hword]
    rw [hroom]
    exact h.resolve_left hword

/-- A token, before which white space is put where it is due. -/
theorem keeps_token (s : Sheet) (hx : x.isToken = true) : Keeps x.position s (s.token x) := by
  cases htext : x.text.toList with
  | nil =>
    rw [s.token_eq_self htext]
    exact .refl x.position s
  | cons first rest =>
    have hshows (below : List Char) : (⟨x, x.text.toList.reverse, below⟩ : Entry).shows = true := by
      simp [Entry.shows, Imprint.separates, hx, htext]
    rw [s.token_eq htext]
    refine ⟨fun hready hsep => ?_, fun _ => ?_, fun d hd _ => ?_⟩
    · refine Separated.congr (Separated.put ?_ fun _ hattaches => ?_) rfl
      · exact separated_makeRoom hsep first
      · refine clear_makeRoom hready ?_
        simpa [Entry.attaches, hx, htext, Page.attaches] using hattaches
    · by_cases hword : Tail.ofInk x.text.toList.reverse = .word
      · exact .inl hword
      · exact .inr ((Clear.put_shown (hshows _) (.inr hword)).congr rfl rfl)
    · exact (Clear.put_shown (hshows _) (.inl hd)).congr rfl rfl

theorem keeps_delimiter (s : Sheet) (hx : x.isToken = true) (pretty : Bool)
    (kind : DelimiterKind) : Keeps x.position s (s.delimiter pretty x kind) := by
  unfold delimiter
  split
  · exact (s.keeps_token hx).trans (keeps_newline x.position _)
  · exact s.keeps_token hx

/-- What follows a supplied text is kept apart from it like from a word. -/
theorem keeps_settle (c : Position) (s : Sheet) : Keeps c s (s.settle false) :=
  ⟨fun _ h => h.congr rfl, fun _ => .inl rfl, fun _ _ h => h.congr rfl rfl⟩

/-- A supplied text. What follows it may attach to it only if it does not bind. -/
theorem keeps_supply (s : Sheet) (x : Imprint) (glued : Bool)
    (hglued : glued = true → Tail.ofInk x.text.toList.reverse ≠ .word) :
    Keeps x.position s ((s.gap.put x).settle glued) := by
  refine ⟨fun hready hsep => ?_, fun hready => ?_, fun d hd hclear => ?_⟩
  · exact Separated.congr ((separated_gap hsep).put fun _ _ => clear_gap hready) rfl
  · cases glued with
    | false => exact .inl rfl
    | true =>
      refine .inr (Clear.congr ?_ rfl rfl)
      by_cases hshows : (⟨x, x.text.toList.reverse, s.gap.top⟩ : Entry).shows = true
      · exact .put_shown hshows (.inr (hglued rfl))
      · exact (clear_gap hready).put_hidden (Bool.eq_false_iff.2 hshows)
  · exact (hclear.gap.put_straddling hd).congr rfl rfl

/-- A text between rows is not a piece. -/
theorem Clear.separator (h : s.Clear c) (hx : x.separates = true) : (s.put x).Clear c :=
  h.put_hidden (by simp [Entry.shows, hx])

theorem Separated.separator (h : s.Separated) (hx : x.separates = true) : (s.put x).Separated :=
  h.put fun hshows => by simp [Entry.shows, hx] at hshows

end Sheet

end PreparedSql
