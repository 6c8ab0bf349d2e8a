import PreparedSql.Proofs.Layout.Separation
import PreparedSql.Proofs.Template.Condensing
import PreparedSql.Proofs.Template.Traces

/-!
# Tokens never run together

Whatever an execution goes through, pieces that would run together are kept apart by white space:
the tail that decides about it is honest about what is written. It is copied into the branches of
choices and starts over in each row, and after a supplied text it counts as a word, or as
something to attach to, without regard to the text, which may be empty.

A row starts over with the gap before the repetition behind it. So it is enough that the sheet was
clear for all rows when the repetition began: a row that shows nothing leaves it clear for the next
ones, and what a row shows is in another row than they are.
-/

namespace PreparedSql

open Sheet (Keeps)

/-- What fills a qualifying hole ends in a point, or is empty. -/
theorem QuoteMark.ofInk_qualifier (q : QuoteMark) (name : String) :
    Tail.ofInk (q.qualifier name).toList.reverse ≠ .word := by
  unfold qualifier
  split
  · decide
  · rw [String.toList_append, List.reverse_append]
    exact (by decide : Tail.opening ≠ .word)

namespace Fragment

variable {pretty : Bool} {spell : Marker → String} {a : Arguments} {q : QuoteMark}

/-- A supplied text between a gap and the end of its fragment. -/
theorem keeps_supply (c : Position) (s : Sheet) {step : Step} (hstep : step.supplies = true)
    {glued : Bool}
    (hglued : glued = true → ∃ t, step = .write t ∧ Tail.ofInk t.toList.reverse ≠ .word) :
    Keeps c s (PlacedStep.actAll pretty spell s [⟨c, .gap⟩, ⟨c, step⟩, ⟨c, .settle glued⟩]) := by
  cases step with
  | write t =>
    refine s.keeps_supply ⟨t, false, c⟩ glued fun h => ?_
    obtain ⟨t', ht, htail⟩ := hglued h
    cases ht
    exact htail
  | marker m =>
    refine s.keeps_supply ⟨spell m, false, c⟩ glued fun h => ?_
    obtain ⟨t, ht, -⟩ := hglued h
    cases ht
  | missing what =>
    refine s.keeps_supply ⟨"", false, c⟩ glued fun h => ?_
    obtain ⟨t, ht, -⟩ := hglued h
    cases ht
  | _ => simp [Step.supplies] at hstep

theorem qualifies_step {h : Hole} (hq : h.qualifies = true) :
    ∃ t, h.step a q = .write t ∧ Tail.ofInk t.toList.reverse ≠ .word := by
  cases h with
  | schema s => exact ⟨_, rfl, q.ofInk_qualifier _⟩
  | catalog c => exact ⟨_, rfl, q.ofInk_qualifier _⟩
  | param p name | inline key | typeId t => cases hq

/-- Whatever the sheet and the position, fragments are laid out with their pieces kept apart. -/
def KeepsApart (pretty : Bool) (spell : Marker → String) (a : Arguments) (q : QuoteMark)
    (fs : List Fragment) : Prop :=
  ∀ row c n s, Keeps c s (PlacedStep.actAll pretty spell s (traceAll a q row c n fs))

/-- What a run that begins on a clear sheet does for the position `c`. -/
structure KeepsClear (c : Position) (s s' : Sheet) : Prop where
  separated : s.Clear c → s.Separated → s'.Separated
  clear : ∀ d, c.straddles d = true → s.Clear d → s'.Clear d

/-- What holds in a repetition that began on the sheet `s`, before its row `k`. If `s` was clear,
the sheet is clear for the rows to come. -/
structure BeforeRow (c : Position) (s : Sheet) (k : Nat) (s' : Sheet) : Prop extends
    KeepsClear c s s' where
  rows : s.Clear c → ∀ j, k ≤ j → s'.Clear (c ++ [.row j])

namespace BeforeRow

variable {c : Position} {s s' : Sheet} {k : Nat}

theorem start (c : Position) (s : Sheet) : BeforeRow c s 0 s :=
  ⟨⟨fun _ => id, fun _ _ => id⟩, fun hclear _ _ => hclear.append _⟩

theorem row (h : BeforeRow c s k s') {body : List Fragment}
    (hbody : KeepsApart pretty spell a q body) (row : Option RowAt) :
    BeforeRow c s (k + 1) (PlacedStep.actAll pretty spell s'.fresh
      (traceAll a q row (c ++ [.row k]) 0 body)) := by
  have hkeeps := hbody row (c ++ [.row k]) 0 s'.fresh
  refine ⟨⟨fun hclear hsep => ?_, fun d hd hclear => ?_⟩, fun hclear j hj => ?_⟩
  · have hrow : s'.fresh.Clear (c ++ [.row k]) := (h.rows hclear k (Nat.le_refl k)).congr rfl rfl
    exact hkeeps.separated (.inr hrow) ((h.separated hclear hsep).congr rfl)
  · exact hkeeps.clear d (Position.straddles_append_left hd _) ((h.clear d hd hclear).congr rfl rfl)
  · exact hkeeps.clear _ (c.straddles_row (by omega))
      ((h.rows hclear j (by omega)).congr rfl rfl)

theorem separator (h : BeforeRow c s k s') (between : String) :
    BeforeRow c s k (s'.put ⟨between, false, c ++ [.between]⟩) := by
  have hx : Imprint.separates ⟨between, false, c ++ [.between]⟩ = true := by
    simp [Imprint.separates]
  exact ⟨⟨fun hclear hsep => (h.separated hclear hsep).separator hx,
    fun d hd hclear => (h.clear d hd hclear).separator hx⟩,
    fun hclear j hj => (h.rows hclear j hj).separator hx⟩

theorem keepsClear (h : ∃ k, BeforeRow c s (k + 1) s') : KeepsClear c s s' :=
  h.elim fun _ h => h.toKeepsClear

end BeforeRow

theorem keepsClear_traceRepeated {body empty : List Fragment}
    (hbody : KeepsApart pretty spell a q body) (hempty : KeepsApart pretty spell a q empty)
    (row : Option RowAt) (c : Position) (key : Key) (between : String) (s : Sheet) :
    KeepsClear c s (PlacedStep.actAll pretty spell s
      (traceRepeated a q row c key body empty between)) := by
  unfold traceRepeated
  cases a.rows key with
  | nil =>
    have hkeeps := hempty row c 0 s.fresh
    refine ⟨fun hclear hsep => ?_, fun d hd hclear => hkeeps.clear d hd (hclear.congr rfl rfl)⟩
    exact hkeeps.separated (.inr (hclear.congr rfl rfl)) (hsep.congr rfl)
  | cons cells rest =>
    exact BeforeRow.keepsClear (PlacedStep.actAll_intercalate (I := BeforeRow c s)
      (J := fun k => BeforeRow c s (k + 1)) (List.cons_ne_nil _ _)
      (fun _ _ _ h => h.row hbody _) (fun _ _ h => h.separator between) (.start c s))

/-- A repetition, given what its body and its empty case do. -/
theorem keeps_each {body empty : List Fragment} (hbody : KeepsApart pretty spell a q body)
    (hempty : KeepsApart pretty spell a q empty) (row : Option RowAt) (c : Position) (key : Key)
    (between : String) (s : Sheet) :
    Keeps c s (PlacedStep.actAll pretty spell s
      (trace a q row c (.each key body empty between))) := by
  have hinner := keepsClear_traceRepeated hbody hempty row c key between s.gap
  rw [trace_each, List.cons_append, PlacedStep.actAll_cons, PlacedStep.actAll_append]
  exact ⟨fun hready hsep => (hinner.separated (Sheet.clear_gap hready)
      (Sheet.separated_gap hsep)).congr rfl,
    fun _ => .inl rfl, fun d hd hclear => (hinner.clear d hd hclear.gap).congr rfl rfl⟩

/-- One fragment and then the rest. -/
theorem KeepsApart.cons {f : Fragment} {fs : List Fragment}
    (hf : ∀ row c s, Keeps c s (PlacedStep.actAll pretty spell s (trace a q row c f)))
    (hfs : KeepsApart pretty spell a q fs) : KeepsApart pretty spell a q (f :: fs) := by
  intro row c n s
  rw [traceAll, PlacedStep.actAll_append]
  exact ((hf row _ s).of_append_leg rfl).trans (hfs row c (n + 1) _)

theorem keepsApart (fs : List Fragment) : KeepsApart pretty spell a q fs := by
  induction fs using listInduction with
  | nil => exact fun row c n s => .refl c s
  | text t fs ih => exact .cons (fun row c s => s.keeps_token (x := ⟨t, true, c⟩) rfl) ih
  | delimiter t kind fs ih =>
    exact .cons (fun row c s => s.keeps_delimiter (x := ⟨t, true, c⟩) rfl pretty kind) ih
  | group indented children fs inner ih =>
    refine .cons (fun row c s => ?_) ih
    cases indented with
    | false => exact inner row c 0 s
    | true =>
      rw [trace, List.cons_append, PlacedStep.actAll_cons, PlacedStep.actAll_append]
      have hinner := (inner row (c ++ [.indented]) 0 (s.enter pretty)).of_append_leg rfl
      exact ((s.keeps_enter c pretty).trans hinner).trans (Sheet.keeps_exit c _ pretty)
  | hole h fs ih =>
    exact .cons (fun row c s => keeps_supply c s (h.supplies_step a q) qualifies_step) ih
  | choice key main alternative fs first second ih =>
    refine .cons (fun row c s => ?_) ih
    rw [trace, PlacedStep.actAll_append]
    split
    · exact (second row c 0 s).trans (Sheet.keeps_settle c _)
    · exact (first row c 0 s).trans (Sheet.keeps_settle c _)
  | each key body empty between fs first second ih =>
    exact .cons (fun row c s => keeps_each first second row c key between s) ih
  | cell index fs ih =>
    exact .cons (fun row c s => keeps_supply c s (RowAt.supplies_step row index) (by simp)) ih

end Fragment

/-- Tokens never run together. The text that an execution gives consists of what was written in
order and of white space, and pieces in a row that would run together are kept apart, whatever
groups, choices, repetitions and empty texts are between them. -/
theorem Template.pieces_apart {t : Template} {a : Arguments} {sql : Sql} (h : t.fill a = .ok sql) :
    ∃ s : Sheet, s.Lays (t.imprints a) sql.text ∧ s.Separated := by
  refine ⟨t.sheet a, t.sheet_lays h, ?_⟩
  exact (Fragment.keepsApart t.fragments none [] 0 {}).separated (.inr Sheet.clear_empty)
    Sheet.separated_empty

/-- An empty qualifier, and a repetition whose first row shows nothing, inside a row that shows
nothing before it. The text before is kept apart from the text of the second row. -/
theorem Template.pieces_apart_empty :
    let fragments : List Fragment :=
      [.text "SELECT", .hole (.schema ⟨0, "s", none⟩), .text "t",
        .group true [.text "x", .delimiter "," .column, .text "y",
          .each "outer" [.choice "k" [.text "z"] [.group true []],
            .each "inner" [.cell 1] [.text "none"] "|"] [.text "none"] ";"],
        .text ")", .hole (.inline "i"), .text "w"]
    let a : Arguments :=
      { schema := fun _ => "", inline := fun _ => some "", alternative := fun _ => true
        rows := fun _ => [[.inline "a", .inline ""], [.inline "b", .value (.bool true)]] }
    let t : Template := ⟨fragments, ⟨.positional, .double, true⟩, false⟩
    t.fill a = .ok ⟨"SELECT t\n    x,\n    y  |?; |?\n)  w", [.bool true, .bool true]⟩ ∧
      ∃ s : Sheet, s.Lays (t.imprints a) "SELECT t\n    x,\n    y  |?; |?\n)  w" ∧ s.Separated := by
  intro fragments a t
  have h : t.fill a = .ok ⟨"SELECT t\n    x,\n    y  |?; |?\n)  w", [.bool true, .bool true]⟩ := by
    decide +kernel
  exact ⟨h, pieces_apart h⟩

end PreparedSql
