import PreparedSql.Proofs.Template.Condensing

/-!
# Condensing twice

What is condensed has nothing left to condense. The second pass meets every text that the first one
has collected as a single token, at the beginning or behind an open fragment, and writes it on a
page that holds nothing. It puts no space in front of the text, since the first pass has put it
there already if it was due, and it adds no gap behind the text for the same reason. A closing
parenthesis in front has nothing before it to take back.

The two passes need not agree whether lines are broken: condensed fragments have no line breaks
other than those in their texts. Nothing is asked of the spacing of the fragments.
-/

namespace PreparedSql

namespace Page

theorem collected_congr {p q : Page} (h : p.ink = q.ink) : p.collected = q.collected := by
  simp only [Page.collected, text, h]

/-- The second pass resumes where the first one is: on its page, which holds nothing, the text that
is collected on `held` comes out as it is, and ends in a word only if `held` does. -/
structure Resumes (held again : Page) : Prop where
  ink : again.ink = []
  room : again.room held.ink = []
  word : (again.token held.text).tail = .word ↔ held.tail = .word
  /-- An empty line does not end in a word. -/
  line : held.lineStart = true → held.tail ≠ .word

namespace Resumes

variable {held again : Page} {front : List Char}

theorem token_ink (h : Resumes held again) : (again.token held.text).ink = held.ink := by
  rw [token_text_ink, h.room, List.append_nil]

/-- The same text is collected in both passes. -/
theorem collected (h : Resumes held again) : (again.token held.text).collected = held.collected :=
  collected_congr h.token_ink

/-- While nothing is collected, the pages agree about words. -/
theorem tail_iff (h : Resumes held again) (hink : held.ink = []) :
    again.tail = .word ↔ held.tail = .word := by
  rw [← h.word, token_text_of_nil again hink]

/-- White space in front of a text makes no room, and otherwise the first character stays what it
was. -/
theorem room_append (h : Resumes held again)
    (hfront : ∀ c ∈ front.getLast?, Text.isBlank c = true) :
    again.room (front ++ held.ink) = [] := by
  by_cases hink : held.ink = []
  · rw [hink, List.append_nil]
    cases hlast : front.getLast? with
    | none => simp [Page.room, hlast, h.ink]
    | some c =>
      have hblank := hfront c hlast
      have hclose : c ≠ ')' := by
        rintro rfl
        exact absurd hblank (by decide)
      simp [Page.room, hlast, makeRoom, attaches, hblank, hclose, h.ink]
  · rw [Page.room_append hink, h.room]

theorem token (h : Resumes held again) (s : String) : Resumes (held.token s) again := by
  cases hs : s.toList with
  | nil => simpa [Page.token, hs] using h
  | cons first rest =>
    have hroom : again.room (first :: makeRoom held.tail first held.ink) = [] := by
      by_cases hink : held.ink = []
      · -- The first pass has made room if the second one would.
        have hword := h.tail_iff hink
        have hblank : attaches ' ' = true := by decide
        by_cases hclose : first = ')' <;> by_cases hheld : held.tail = .word <;>
          by_cases hattach : attaches first = true <;>
          simp_all [Page.room, makeRoom, closeUp, h.ink]
      · unfold makeRoom
        split
        · have hclosed : (first :: closeUp held.ink).getLast? = held.ink.getLast? := by
            rw [← getLast?_closeUp held.ink, List.getLast?_cons]
            cases hlast : (closeUp held.ink).getLast? with
            | some c => rfl
            | none =>
              rw [getLast?_closeUp, List.getLast?_eq_none_iff] at hlast
              exact absurd hlast hink
          rw [room_congr hclosed, h.room]
        · split
          · exact (Page.room_append hink [first, ' ']).trans h.room
          · exact (Page.room_append hink [first]).trans h.room
    have hnew :
        (held.token s).ink = rest.reverse ++ first :: makeRoom held.tail first held.ink := by
      simp [Page.token, hs]
    refine ⟨h.ink, ?_, ?_, ?_⟩
    · rw [hnew, Page.room_append (List.cons_ne_nil _ _), hroom]
    · rw [token_text again _ (by simp [hnew])]
      simp [Page.token, hs]
    · simp [Page.token, hs]

theorem newline (h : Resumes held again) : Resumes held.newline again := by
  cases hline : held.lineStart with
  | true => simpa [Page.newline, hline] using h
  | false =>
    have hnew : held.newline.ink = (margin held.indent ++ ['\n']) ++ held.ink := by
      simp [Page.newline, hline]
    refine ⟨h.ink, ?_, ?_, ?_⟩
    · rw [hnew]
      refine h.room_append ?_
      simp only [List.getLast?_concat, Option.mem_some_iff, forall_eq']
      decide
    · rw [token_text again _ (by simp [hnew]), hnew]
      simp [Page.newline, hline, ofInk_line fun _ hc => eq_space_of_mem_margin hc]
    · simp [Page.newline, hline]

/-- An empty line can be moved, since its first character stays. -/
theorem reindent (h : Resumes held again) (hline : held.lineStart = true) :
    Resumes held.reindent again := by
  unfold Page.reindent
  split
  · next rest hrest =>
    obtain ⟨spaces, hspaces, hink⟩ := exists_spaces_of_dropWhile hrest
    have hlast : (margin held.indent ++ '\n' :: rest).getLast? = held.ink.getLast? := by
      rw [hink, List.getLast?_append, List.getLast?_append, List.getLast?_cons]
      rfl
    refine ⟨h.ink, (room_congr hlast).trans h.room, ?_, h.line⟩
    rw [token_text again _ (by simp), ofInk_line fun _ hc => eq_space_of_mem_margin hc]
    simpa using h.line hline
  · exact h

/-- The indentation has no part in what is collected. -/
theorem setIndent (h : Resumes held again) (indent : Nat) :
    Resumes { held with indent } again := ⟨h.ink, h.room, h.word, h.line⟩

theorem delimiter (h : Resumes held again) (pretty : Bool) (s : String) (kind : DelimiterKind) :
    Resumes (held.delimiter pretty s kind) again := by
  unfold Page.delimiter
  split
  · exact (h.token s).newline
  · exact h.token s

theorem enter (h : Resumes held again) (pretty : Bool) : Resumes (held.enter pretty) again := by
  unfold Page.enter
  split
  · exact (h.setIndent _).newline
  · exact h

theorem exit (h : Resumes held again) (pretty : Bool) : Resumes (held.exit pretty) again := by
  cases pretty with
  | false => exact h
  | true =>
    simp only [Page.exit, if_true]
    split
    · next hline => exact (h.setIndent _).reindent hline
    · exact (h.setIndent _).newline

theorem gap (h : Resumes held again) : Resumes held.gap again := by
  by_cases hword : held.tail = .word
  · have hgap : held.gap = { held with ink := [' '] ++ held.ink, tail := .space } := by
      simp [Page.gap, hword]
    rw [hgap]
    refine ⟨h.ink, h.room_append (by simp; decide), ?_, by simp⟩
    rw [token_text again _ (by simp)]
    exact Iff.rfl
  · rwa [gap_eq_self hword]

/-- Behind a gap the second pass adds none. -/
theorem gap_again (h : Resumes held.gap again) :
    (again.token held.gap.text).gap = again.token held.gap.text :=
  gap_eq_self fun hword => held.gap_tail_ne_word (h.word.1 hword)

/-- Both passes go on in the same way when the collected text was handed over. -/
theorem cleared (h : Resumes held again) : Resumes held.cleared (again.token held.text).cleared :=
  ⟨rfl, rfl, by rw [token_text_of_nil _ rfl]; exact h.word, h.line⟩

theorem settle (held again : Page) (glued : Bool) :
    Resumes (held.cleared.settle glued) (again.cleared.settle glued) :=
  ⟨rfl, rfl, by rw [token_text_of_nil _ rfl]; rfl, nofun⟩

theorem fresh (held again : Page) : Resumes held.cleared.fresh again.cleared.fresh :=
  ⟨rfl, rfl, by rw [token_text_of_nil _ rfl]; rfl, nofun⟩

theorem start : Resumes {} {} := ⟨rfl, rfl, by rw [token_text_of_nil _ rfl], nofun⟩

end Resumes

end Page

namespace Fragment

open Page (Resumes)

/-- Laying collected text out writes it as one token. -/
theorem condenseAll_collected (again : Bool) (q p : Page) :
    condenseAll again q p.collected = ([], q.token p.text) := by
  unfold Page.collected
  split
  · next h => rw [Page.token_text_of_nil q (List.isEmpty_iff.1 h)]; rfl
  · rfl

/-- A second pass over what the fragments condense to changes nothing, wherever it starts. -/
def Condensed (pretty again : Bool) (fs : List Fragment) : Prop :=
  ∀ p q : Page, Resumes p q →
    (condenseAll again q (condenseAll pretty p fs).1).1 = (condenseAll pretty p fs).1 ∧
      Resumes (condenseAll pretty p fs).2 (condenseAll again q (condenseAll pretty p fs).1).2

namespace Condensed

variable {pretty again : Bool} {fs : List Fragment} {p q : Page}

/-- A list that stands in a branch, up to the text that is collected last. -/
theorem branch (h : Condensed pretty again fs) (hpq : Resumes p q) :
    condensedFrom again q (condensedFrom pretty p fs) = condensedFrom pretty p fs := by
  obtain ⟨hdone, hend⟩ := h p q hpq
  simp only [condensedFrom, condenseAll_append, condenseAll_collected, hdone, List.append_nil]
  rw [hend.collected]

/-- An open fragment is handed over behind the collected text in both passes. -/
theorem handOver {f g : Fragment} {held p' q' : Page} (h : Condensed pretty again fs)
    (hpq : Resumes held q) (hfirst : condense pretty p f = (held.collected ++ [g], p'))
    (hsecond : condense again (q.token held.text) g = ((q.token held.text).collected ++ [g], q'))
    (hpq' : Resumes p' q') :
    (condenseAll again q (condenseAll pretty p (f :: fs)).1).1 =
        (condenseAll pretty p (f :: fs)).1 ∧
      Resumes (condenseAll pretty p (f :: fs)).2
        (condenseAll again q (condenseAll pretty p (f :: fs)).1).2 := by
  obtain ⟨hdone, hend⟩ := h p' q' hpq'
  simp only [condenseAll, hfirst, condenseAll_append, condenseAll_collected, hsecond,
    List.nil_append, List.append_assoc, List.singleton_append, hpq.collected, hdone, true_and]
  exact hend

end Condensed

theorem condensed_all (pretty again : Bool) (fs : List Fragment) : Condensed pretty again fs := by
  induction fs using listInduction with
  | nil => exact fun p q hpq => ⟨rfl, hpq⟩
  | text s fs ih => exact fun p q hpq => ih _ q (hpq.token s)
  | delimiter s kind fs ih => exact fun p q hpq => ih _ q (hpq.delimiter pretty s kind)
  | group indented children fs inner ih =>
    intro p q hpq
    cases indented with
    | false =>
      obtain ⟨hdone, hmid⟩ := inner p q hpq
      obtain ⟨hrest, hend⟩ := ih _ _ hmid
      simp only [condenseAll, condense, condenseAll_append, hdone, hrest, true_and]
      exact hend
    | true =>
      obtain ⟨hdone, hmid⟩ := inner _ q (hpq.enter pretty)
      obtain ⟨hrest, hend⟩ := ih _ _ (hmid.exit pretty)
      simp only [condenseAll, condense, condenseAll_append, hdone, hrest, true_and]
      exact hend
  | hole h fs ih =>
    intro p q hpq
    refine ih.handOver hpq.gap rfl ?_ (.settle p.gap (q.token p.gap.text) h.qualifies)
    simp only [condense, hpq.gap.gap_again]
  | choice key main alternative fs first second ih =>
    intro p q hpq
    refine ih.handOver hpq (condense_choice pretty p key main alternative) ?_
      (.settle p (q.token p.text) false)
    rw [condense_choice, first.branch hpq.cleared, second.branch hpq.cleared]
  | each key body empty between fs first second ih =>
    intro p q hpq
    have hfresh := Resumes.fresh p.gap (q.token p.gap.text)
    refine ih.handOver hpq.gap (condense_each pretty p key body empty between) ?_
      (.settle p.gap (q.token p.gap.text) false)
    rw [condense_each, hpq.gap.gap_again, first.branch hfresh, second.branch hfresh]
  | cell index fs ih =>
    intro p q hpq
    refine ih.handOver hpq.gap rfl ?_ (.settle p.gap (q.token p.gap.text) false)
    simp only [condense, hpq.gap.gap_again]

/-- One pass is enough: condensing again changes nothing, with or without line breaks. -/
theorem condensed_condensed (pretty again : Bool) (fs : List Fragment) :
    condensed again (condensed pretty fs) = condensed pretty fs :=
  (condensed_all pretty again fs).branch .start

end Fragment

end PreparedSql
