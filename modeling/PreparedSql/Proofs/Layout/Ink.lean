import PreparedSql.Layout.Page

/-!
# Ink

What the operations of a page do to its written characters. Only two of them
look back: a closing parenthesis at the last two characters, and moving an empty
line at the spaces down to the last line break. Neither sees text below a longer
run of characters, which is what lets a page hold text back.
-/

namespace PreparedSql.Page

@[simp] theorem token_indent (p : Page) (s : String) : (p.token s).indent = p.indent := by
  unfold token
  split <;> rfl

@[simp] theorem write_ink (p : Page) (s : String) :
    (p.write s).ink = s.toList.reverse ++ p.ink := rfl

theorem write_write (p : Page) (s t : String) : (p.write s).write t = p.write (s ++ t) := by
  simp [write]

@[simp] theorem settle_ink (p : Page) (glued : Bool) : (p.settle glued).ink = p.ink := rfl

@[simp] theorem settle_indent (p : Page) (glued : Bool) :
    (p.settle glued).indent = p.indent := rfl

@[simp] theorem settle_lineStart (p : Page) (glued : Bool) :
    (p.settle glued).lineStart = false := rfl

@[simp] theorem fresh_ink (p : Page) : p.fresh.ink = p.ink := rfl

@[simp] theorem cleared_ink (p : Page) : p.cleared.ink = [] := rfl

@[simp] theorem cleared_tail (p : Page) : p.cleared.tail = p.tail := rfl

@[simp] theorem cleared_indent (p : Page) : p.cleared.indent = p.indent := rfl

@[simp] theorem cleared_lineStart (p : Page) : p.cleared.lineStart = p.lineStart := rfl

@[simp] theorem gap_indent (p : Page) : p.gap.indent = p.indent := by
  unfold gap
  split <;> rfl

@[simp] theorem gap_lineStart (p : Page) : p.gap.lineStart = p.lineStart := by
  unfold gap
  split <;> rfl

@[simp] theorem newline_indent (p : Page) : p.newline.indent = p.indent := by
  unfold newline
  split <;> rfl

@[simp] theorem reindent_tail (p : Page) : p.reindent.tail = p.tail := by
  unfold reindent
  split <;> rfl

@[simp] theorem reindent_indent (p : Page) : p.reindent.indent = p.indent := by
  unfold reindent
  split <;> rfl

@[simp] theorem reindent_lineStart (p : Page) : p.reindent.lineStart = p.lineStart := by
  unfold reindent
  split <;> rfl

@[simp] theorem delimiter_indent (p : Page) (pretty : Bool) (s : String) (kind : DelimiterKind) :
    (p.delimiter pretty s kind).indent = p.indent := by
  unfold delimiter
  split <;> simp

theorem enter_indent (p : Page) (pretty : Bool) :
    (p.enter pretty).indent = if pretty then p.indent + 1 else p.indent := by
  cases pretty <;> simp [enter]

theorem exit_indent (p : Page) (pretty : Bool) :
    (p.exit pretty).indent = if pretty then p.indent - 1 else p.indent := by
  cases pretty with
  | false => rfl
  | true =>
    simp only [exit, if_true]
    split <;> simp

/-- A gap leaves no word at the end. -/
theorem gap_tail_ne_word (p : Page) : p.gap.tail ≠ .word := by
  unfold gap
  split <;> simp_all

theorem gap_eq_self {p : Page} (h : p.tail ≠ .word) : p.gap = p := by
  simp [gap, h]

/-! ## Looking back -/

/-- A closing parenthesis looks at two characters; only a lone space leaves the
decision to what stands below. -/
theorem closeUp_append {ink : List Char} (hne : ink ≠ []) (hsp : ink ≠ [' '])
    (below : List Char) : closeUp (ink ++ below) = closeUp ink ++ below := by
  match ink with
  | [] => exact absurd rfl hne
  | [c] =>
    have hc : c ≠ ' ' := fun h => hsp (by rw [h])
    simp [closeUp, hc]
  | c :: d :: rest =>
    by_cases hc : c = ' '
    · subst hc
      simp only [List.cons_append, closeUp]
      split <;> rfl
    · simp [closeUp, hc]

theorem getLast?_closeUp (ink : List Char) : (closeUp ink).getLast? = ink.getLast? := by
  unfold closeUp
  split
  · split <;> simp
  · rfl

/-- What a page becomes below a text written over it, newest character first:
the text's first character decides. -/
def room (p : Page) (ink : List Char) : List Char :=
  match ink.getLast? with
  | none => p.ink
  | some first => makeRoom p.tail first p.ink

@[simp] theorem room_nil (p : Page) : p.room [] = p.ink := rfl

theorem room_congr {p : Page} {ink ink' : List Char} (h : ink.getLast? = ink'.getLast?) :
    p.room ink = p.room ink' := by
  simp [room, h]

/-- Text written over other text makes no further room. -/
theorem room_append {p : Page} {ink : List Char} (h : ink ≠ []) (above : List Char) :
    p.room (above ++ ink) = p.room ink := by
  apply room_congr
  rw [List.getLast?_append, List.getLast?_eq_some_getLast h]
  rfl

/-- A page under a text that was collected on another one. -/
theorem token_text (p held : Page) (h : held.ink ≠ []) :
    p.token held.text =
      { p with
        ink := held.ink ++ p.room held.ink, tail := .ofInk held.ink, lineStart := false } := by
  obtain ⟨rest, first, hink⟩ := (List.eq_nil_or_concat held.ink).resolve_left h
  rw [List.concat_eq_append] at hink
  simp only [token, text, String.toList_ofList, hink, List.reverse_append, List.reverse_cons,
    List.reverse_nil, List.nil_append, List.singleton_append, List.reverse_reverse, room,
    List.getLast?_append, List.getLast?_singleton]
  cases rest <;> simp [Tail.ofInk]

theorem token_text_ink (p held : Page) :
    (p.token held.text).ink = held.ink ++ p.room held.ink := by
  by_cases h : held.ink = []
  · simp [text, h, token]
  · simp [token_text p held h]

theorem token_text_of_nil {held : Page} (p : Page) (h : held.ink = []) :
    p.token held.text = p := by
  simp [text, h, token]

/-! ## Empty lines -/

/-- An empty line ends in white space. -/
theorem ofInk_line {spaces : List Char} (h : ∀ c ∈ spaces, c = ' ') (rest : List Char) :
    Tail.ofInk (spaces ++ '\n' :: rest) = .space := by
  cases spaces with
  | nil => rfl
  | cons c spaces =>
    obtain rfl := h c (by simp)
    rfl

theorem line_ne_space (spaces rest : List Char) : spaces ++ '\n' :: rest ≠ [' '] := by
  intro h
  have hmem : '\n' ∈ [' '] := h ▸ by simp
  simp at hmem

theorem eq_space_of_mem_margin {c : Char} {indent : Nat} (h : c ∈ margin indent) : c = ' ' :=
  List.eq_of_mem_replicate h

/-- Spaces down to a line break, if there is one. -/
theorem dropWhile_line {spaces : List Char} (h : ∀ c ∈ spaces, c = ' ') (rest : List Char) :
    (spaces ++ '\n' :: rest).dropWhile (· == ' ') = '\n' :: rest := by
  rw [List.dropWhile_append_of_pos (by simpa using h)]
  rfl

theorem exists_spaces_of_dropWhile {ink rest : List Char}
    (h : ink.dropWhile (· == ' ') = '\n' :: rest) :
    ∃ spaces, (∀ c ∈ spaces, c = ' ') ∧ ink = spaces ++ '\n' :: rest := by
  refine ⟨ink.takeWhile (· == ' '), ?_, ?_⟩
  · intro c hc
    simpa using List.all_eq_true.mp List.all_takeWhile c hc
  · rw [← h, List.takeWhile_append_dropWhile]

end PreparedSql.Page
