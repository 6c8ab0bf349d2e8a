import Mathlib.Data.List.TakeWhile
import PreparedSql.Proofs.Layout.Ink

/-!
# Text below a page

A page may be written on with other text below it. Most operations do not see that text. A closing
parenthesis and the moving of an empty line look back, and see it only as long as there is nothing
but spaces on the page itself.
-/

namespace PreparedSql.Page

/-- The page with text below what is written on it. -/
def atop (p : Page) (below : List Char) : Page := { p with ink := p.ink ++ below }

/-- There is something other than spaces on the page. -/
def Grounded (p : Page) : Prop := ∃ c ∈ p.ink, c ≠ ' '

variable {p : Page} {below : List Char} {s : String}

@[simp] theorem atop_ink : (p.atop below).ink = p.ink ++ below := rfl

@[simp] theorem atop_lineStart : (p.atop below).lineStart = p.lineStart := rfl

/-! ## Operations that do not look back -/

theorem write_atop : (p.atop below).write s = (p.write s).atop below := by
  simp [write, atop]

theorem gap_atop : (p.atop below).gap = p.gap.atop below := by
  by_cases hword : p.tail = .word <;> simp [gap, atop, hword]

theorem settle_atop (glued : Bool) :
    (p.atop below).settle glued = (p.settle glued).atop below := rfl

theorem fresh_atop : (p.atop below).fresh = p.fresh.atop below := rfl

theorem newline_atop : (p.atop below).newline = p.newline.atop below := by
  cases hline : p.lineStart <;> simp [newline, atop, hline]

theorem enter_atop (pretty : Bool) : (p.atop below).enter pretty = (p.enter pretty).atop below := by
  cases pretty with
  | false => rfl
  | true =>
    exact newline_atop (p := { p with indent := p.indent + 1 })

/-! ## Looking back -/

theorem makeRoom_atop {first : Char} (h : p.Grounded ∨ first ≠ ')') (tail : Tail) :
    makeRoom tail first (p.ink ++ below) = makeRoom tail first p.ink ++ below := by
  by_cases hclose : first = ')'
  · obtain ⟨c, hc, hne⟩ := h.resolve_right fun hne => hne hclose
    have hink : p.ink ≠ [] := List.ne_nil_of_mem hc
    have hspace : p.ink ≠ [' '] := fun heq => hne (by simpa [heq] using hc)
    simp [makeRoom, hclose, closeUp_append hink hspace]
  · by_cases hroom : tail = .word && !attaches first <;> simp [makeRoom, hclose, hroom]

theorem token_atop (h : p.Grounded ∨ s.toList.head? ≠ some ')') :
    (p.atop below).token s = (p.token s).atop below := by
  cases hs : s.toList with
  | nil => simp [token, hs]
  | cons first rest =>
    have hroom : makeRoom p.tail first (p.ink ++ below) = makeRoom p.tail first p.ink ++ below :=
      makeRoom_atop (by simpa [hs] using h) p.tail
    have htail (ink ink' : List Char) : Tail.ofInk (rest.reverse ++ first :: ink) =
        Tail.ofInk (rest.reverse ++ first :: ink') := by
      cases rest.reverse <;> rfl
    simp only [token, atop, hs, hroom]
    rw [htail (makeRoom p.tail first p.ink) (makeRoom p.tail first p.ink ++ below)]
    simp

theorem delimiter_atop (h : p.Grounded ∨ s.toList.head? ≠ some ')') (pretty : Bool)
    (kind : DelimiterKind) :
    (p.atop below).delimiter pretty s kind = (p.delimiter pretty s kind).atop below := by
  unfold delimiter
  split
  · rw [token_atop h, newline_atop]
  · exact token_atop h

theorem reindent_atop (h : p.Grounded) : (p.atop below).reindent = p.reindent.atop below := by
  obtain ⟨c, hc, hne⟩ := h
  cases hline : p.ink.dropWhile (· == ' ') with
  | nil =>
    have hspaces := List.dropWhile_eq_nil_iff.1 hline c hc
    exact absurd (by simpa using hspaces) hne
  | cons d rest =>
    have hatop : (p.ink ++ below).dropWhile (· == ' ') = d :: rest ++ below := by
      simp [List.dropWhile_append, hline]
    by_cases hd : d = '\n'
    · simp [reindent, atop, hatop, hline, hd]
    · simp [reindent, atop, hatop, hline, hd]

theorem exit_atop (h : p.Grounded) (pretty : Bool) :
    (p.atop below).exit pretty = (p.exit pretty).atop below := by
  cases pretty with
  | false => rfl
  | true =>
    let out : Page := { p with indent := p.indent - 1 }
    have hatop : (p.atop below).exit true =
        if out.lineStart then (out.atop below).reindent else (out.atop below).newline := rfl
    have hexit : p.exit true = if out.lineStart then out.reindent else out.newline := rfl
    have hout : out.Grounded := h
    rw [hatop, hexit, newline_atop, reindent_atop hout]
    split <;> rfl

/-! ## Only spaces are taken back -/

variable {c : Char}

theorem mem_makeRoom (hne : c ≠ ' ') {ink : List Char} (hc : c ∈ ink) (tail : Tail) (first : Char) :
    c ∈ makeRoom tail first ink := by
  have hclose : c ∈ closeUp ink := by
    unfold closeUp
    split
    · split
      · exact hc
      · exact List.mem_of_ne_of_mem hne hc
    · exact hc
  unfold makeRoom
  split
  · exact hclose
  · split
    · exact List.mem_cons_of_mem _ hc
    · exact hc

theorem Grounded.token (h : p.Grounded) (s : String) : (p.token s).Grounded := by
  obtain ⟨c, hc, hne⟩ := h
  cases hs : s.toList with
  | nil => exact ⟨c, by simpa [Page.token, hs] using hc, hne⟩
  | cons first rest =>
    exact ⟨c, by simp [Page.token, hs, mem_makeRoom hne hc], hne⟩

theorem Grounded.newline (h : p.Grounded) : p.newline.Grounded := by
  obtain ⟨c, hc, hne⟩ := h
  refine ⟨c, ?_, hne⟩
  unfold Page.newline
  split
  · exact hc
  · simp [hc]

theorem Grounded.reindent (h : p.Grounded) : p.reindent.Grounded := by
  unfold Page.reindent
  split
  · exact ⟨'\n', by simp, by decide⟩
  · exact h

theorem Grounded.write (h : p.Grounded) (s : String) : (p.write s).Grounded := by
  obtain ⟨c, hc, hne⟩ := h
  exact ⟨c, by simp [hc], hne⟩

theorem Grounded.gap (h : p.Grounded) : p.gap.Grounded := by
  obtain ⟨c, hc, hne⟩ := h
  refine ⟨c, ?_, hne⟩
  unfold Page.gap
  split
  · exact List.mem_cons_of_mem _ hc
  · exact hc

theorem Grounded.delimiter (h : p.Grounded) (pretty : Bool) (s : String) (kind : DelimiterKind) :
    (p.delimiter pretty s kind).Grounded := by
  unfold Page.delimiter
  split
  · exact (h.token s).newline
  · exact h.token s

theorem Grounded.enter (h : p.Grounded) (pretty : Bool) : (p.enter pretty).Grounded := by
  cases pretty with
  | false => exact h
  | true => exact Grounded.newline (p := { p with indent := p.indent + 1 }) h

theorem Grounded.exit (h : p.Grounded) (pretty : Bool) : (p.exit pretty).Grounded := by
  cases pretty with
  | false => exact h
  | true =>
    have hout : Grounded { p with indent := p.indent - 1 } := h
    simp only [Page.exit, if_true]
    split
    · exact hout.reindent
    · exact hout.newline

/-- A token with something other than spaces in it. -/
theorem grounded_token (h : ∃ c ∈ s.toList, c ≠ ' ') : (p.token s).Grounded := by
  obtain ⟨c, hc, hne⟩ := h
  cases hs : s.toList with
  | nil => simp [hs] at hc
  | cons first rest =>
    rw [hs] at hc
    refine ⟨c, ?_, hne⟩
    rcases List.mem_cons.1 hc with rfl | hrest
    · simp [Page.token, hs]
    · simp [Page.token, hs, hrest]

theorem grounded_delimiter (h : ∃ c ∈ s.toList, c ≠ ' ') (pretty : Bool) (kind : DelimiterKind) :
    (p.delimiter pretty s kind).Grounded := by
  unfold Page.delimiter
  split
  · exact (grounded_token h).newline
  · exact grounded_token h

end PreparedSql.Page
