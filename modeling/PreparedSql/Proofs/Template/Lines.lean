import PreparedSql.Proofs.Layout.Lines
import PreparedSql.Proofs.Template.Condensing
import PreparedSql.Proofs.Template.Traces

/-!
# How fragments carry the current line

With lines broken, what laying out a list of fragments needs to know about the current line and what
it leaves is told by two states of it. `Fragment.Carries` is such a triple. There is a rule for each
kind of fragment; an indented group is to be entered on a line that has something on it, and what
stands in it begins at its margin.
-/

namespace PreparedSql

open Sheet (Stands)

/-- What executions are laid out with. -/
structure Setting where
  /-- Whether the first indented group is entered on an empty line. -/
  raised : Bool
  /-- Whether only positions inside of indented groups are looked at. -/
  inside : Bool
  spell : Marker → String
  arguments : Arguments
  quote : QuoteMark

/-- In a raised layout, what goes before the first indented group is no longer looked at. -/
def Setting.Settled (w : Setting) : Prop := w.raised = true → w.inside = true

/-- Entries that are not all flat stay so. -/
theorem Sheet.flat_eq_false_of_imprints {s s' : Sheet} {xs : List Imprint}
    (h : s'.imprints = s.imprints ++ xs) (hs : Entry.flat s.entries = false) :
    Entry.flat s'.entries = false := by
  simp only [Entry.flat, List.all_eq_false] at hs ⊢
  obtain ⟨e, he, hdepth⟩ := hs
  have hmem : e.imprint ∈ s'.imprints := by
    rw [h]
    exact List.mem_append_left _ (List.mem_reverse.2 (List.mem_map_of_mem he))
  obtain ⟨e', he', heq⟩ := List.mem_map.1 (List.mem_reverse.1 hmem)
  exact ⟨e', he', by rwa [Entry.depth, heq]⟩

theorem Sheet.flat_of_imprints {s : Sheet} (h : ∀ x ∈ s.imprints, x.position.depth = 0) :
    Entry.flat s.entries = true := by
  refine List.all_eq_true.2 fun e he => ?_
  have hdepth : e.depth = 0 := h e.imprint (List.mem_reverse.2 (List.mem_map_of_mem he))
  simp [hdepth]

theorem PlacedStep.position_of_imprint? {spell : Marker → String} {x : PlacedStep} {y : Imprint}
    (h : x.imprint? spell = some y) : y.position = x.position := by
  obtain ⟨c, step⟩ := x
  cases step with
  | token t | delimiter t kind =>
    by_cases ht : t = ""
    · simp [imprint?, ht] at h
    · obtain rfl : ⟨t, true, c⟩ = y := by simpa [imprint?, ht] using h
      rfl
  | write t | marker m | missing what =>
    cases h
    rfl
  | enter | exit | gap | settle glued | fresh => cases h

/-- What a step of a fragment that supplies a text writes. -/
theorem PlacedStep.exists_act_eq_put (pretty : Bool) (spell : Marker → String) (s : Sheet)
    (c : Position) {step : Step} (h : step.supplies = true) :
    ∃ x : Imprint, x.position = c ∧ act pretty spell s ⟨c, step⟩ = s.put x := by
  cases step with
  | write t => exact ⟨⟨t, false, c⟩, rfl, rfl⟩
  | marker m => exact ⟨⟨spell m, false, c⟩, rfl, rfl⟩
  | missing what => exact ⟨⟨"", false, c⟩, rfl, rfl⟩
  | _ => simp [Step.supplies] at h

namespace Fragment

/-- Laying out the fragments takes the current line from one state to the other, wherever they
stand. -/
def Carries (w : Setting) (X : LineState) (fs : List Fragment) (Y : LineState) : Prop :=
  ∀ row c n s, (w.inside = true → 0 < Position.depth c) → Stands w.raised (Position.depth c) X s →
    Stands w.raised (Position.depth c) Y
      (PlacedStep.actAll true w.spell s (traceAll w.arguments w.quote row c n fs))

namespace Carries

variable {w : Setting} {X Y Z : LineState} {f : Fragment} {fs gs : List Fragment}

theorem nil : Carries w X [] X := fun _ _ _ _ _ h => h

theorem append (hf : Carries w X fs Y) (hg : Carries w Y gs Z) : Carries w X (fs ++ gs) Z := by
  intro row c n s hc h
  rw [traceAll_append, PlacedStep.actAll_append]
  exact hg row c _ _ hc (hf row c n s hc h)

theorem mono {X' Y' : LineState} (h : Carries w X fs Y) (hX : X'.within X = true)
    (hY : Y.within Y' = true) : Carries w X' fs Y' :=
  fun row c n s hc hs => (h row c n s hc (hs.mono hX)).mono hY

/-- One fragment, at its own position. -/
theorem single (h : ∀ row c s, (w.inside = true → 0 < Position.depth c) →
    Stands w.raised (Position.depth c) X s → Stands w.raised (Position.depth c) Y
      (PlacedStep.actAll true w.spell s (trace w.arguments w.quote row c f))) :
    Carries w X [f] Y := by
  intro row c n s hc hs
  rw [← c.depth_fragment n] at hc hs ⊢
  rw [traceAll, traceAll, List.append_nil]
  exact h row _ s hc hs

theorem text {t : String} (ht : t ≠ "") : Carries w .loose [.text t] .filled :=
  single fun _ _ _ _ hs => hs.token rfl ht

/-- A text that may be empty. -/
theorem text_any (t : String) (hfilled : LineState.filled.within X = true)
    (hloose : X.within .loose = true) : Carries w X [.text t] X :=
  single fun _ _ _ _ hs => hs.token_any hfilled hloose rfl

theorem comma : Carries w .filled [.delimiter "," .other] .filled :=
  single fun _ _ _ _ hs => hs.token_any rfl rfl rfl

theorem line {t : String} {kind : DelimiterKind} (hkind : kind.breaksLine = true) :
    Carries w .begun [.delimiter t kind] .margin :=
  single fun _ _ _ _ hs => hs.delimiter_break rfl hkind

theorem supply {step : Option RowAt → Step} {glued : Bool}
    (hstep : ∀ row, (step row).supplies = true)
    (htrace : ∀ row c, trace w.arguments w.quote row c f =
      [⟨c, .gap⟩, ⟨c, step row⟩, ⟨c, .settle glued⟩]) : Carries w .loose [f] .filled := by
  refine single fun row c s _ hs => ?_
  obtain ⟨x, hx, hput⟩ := PlacedStep.exists_act_eq_put true w.spell s.gap c (hstep row)
  rw [htrace, PlacedStep.actAll_cons, PlacedStep.actAll_cons, PlacedStep.actAll_cons,
    PlacedStep.actAll_nil]
  have hgap : PlacedStep.act true w.spell s ⟨c, .gap⟩ = s.gap := rfl
  rw [hgap, hput]
  exact hs.supply (by rw [hx]) glued

theorem hole (h : Hole) : Carries w .loose [.hole h] .filled :=
  supply (fun _ => h.supplies_step _ _) fun _ _ => rfl

theorem cell (index : Nat) : Carries w .loose [.cell index] .filled :=
  supply (fun row => RowAt.supplies_step row index) fun _ _ => rfl

/-- An indented group on a line that has something on it. -/
theorem group (hw : w.Settled) (h : Carries w .begun fs .begun) :
    Carries w .filled [.group true fs] .margin := by
  refine single fun row c s hc hs => ?_
  have hdepth (hr : w.raised = true) : 0 < Position.depth c := hc (hw hr)
  rw [trace, List.cons_append, PlacedStep.actAll_cons, PlacedStep.actAll_append]
  have henter := (hs.enter hdepth).mono (Y := .begun) rfl
  rw [← c.depth_indented] at henter
  have hinner := h row (c ++ [.indented]) 0 _ (fun _ => by simp) henter
  rw [c.depth_indented] at hinner
  refine hinner.exit fun hr _ => ?_
  refine Sheet.flat_eq_false_of_imprints (PlacedStep.imprints_actAll _) ?_
  refine Sheet.flat_eq_false_of_imprints ((s.imprints_enter true).trans (List.append_nil _).symm) ?_
  exact Entry.flat_eq_false hs.state.1.last (by rw [hs.indent]; exact hdepth hr)

/-- Either branch, as long as it has something in it or the line has. -/
theorem choice {key : Key} (hf : Carries w X fs .inked) (hg : Carries w X gs .inked) :
    Carries w X [.choice key fs gs] .filled := by
  refine single fun row c s hc hs => ?_
  rw [trace, PlacedStep.actAll_append]
  split
  · exact (hg row c 0 s hc hs).settle false
  · exact (hf row c 0 s hc hs).settle false

/-- A row starts over, and so does the empty case. -/
theorem start {s : Sheet} {d : Nat} (hX : X = .loose ∨ X = .inked) (h : Stands w.raised d X s) :
    Stands w.raised d X s.fresh := by
  rcases hX with rfl | rfl
  · exact h.fresh
  · exact h.fresh_inked

theorem traceRepeated {key : Key} {between : String} (hX : X = .loose ∨ X = .inked)
    (hf : Carries w X fs .inked) (hg : Carries w X gs .inked) (row : Option RowAt) {c : Position}
    {s : Sheet} (hc : w.inside = true → 0 < c.depth) (hs : Stands w.raised c.depth X s) :
    Stands w.raised c.depth .inked (PlacedStep.actAll true w.spell s
      (Fragment.traceRepeated w.arguments w.quote row c key fs gs between)) := by
  unfold Fragment.traceRepeated
  cases w.arguments.rows key with
  | nil => exact hg row c 0 s.fresh hc (start hX hs)
  | cons cells rest =>
    have hbetween (s : Sheet) (hs : Stands w.raised c.depth .inked s) :
        Stands w.raised c.depth X (PlacedStep.actAll true w.spell s
          [⟨c ++ [.between], .write between⟩]) := by
      have hput : Stands w.raised c.depth .inked (s.put ⟨between, false, c ++ [.between]⟩) :=
        hs.put_inked (by simp)
      rcases hX with rfl | rfl
      · exact hput.mono rfl
      · exact hput
    refine (PlacedStep.actAll_intercalate (I := fun _ => Stands w.raised c.depth X)
      (J := fun _ => Stands w.raised c.depth .inked) (List.cons_ne_nil cells rest)
      (fun index cells s hs => ?_) (fun _ => hbetween) hs).elim fun _ h => h
    rw [PlacedStep.actAll_cons]
    rw [← c.depth_row index] at hc hs ⊢
    exact hf _ _ 0 _ hc (start hX hs)

theorem each {key : Key} {between : String} (hX : X = .loose ∨ X = .inked)
    (hf : Carries w X fs .inked) (hg : Carries w X gs .inked) :
    Carries w X [.each key fs gs between] .filled := by
  refine single fun row c s hc hs => ?_
  rw [trace_each, List.cons_append, PlacedStep.actAll_cons, PlacedStep.actAll_append]
  refine (traceRepeated hX hf hg row hc ?_).settle false
  rcases hX with rfl | rfl
  · exact hs.gap
  · exact hs.gap_inked

end Carries

/-! ## Raised layouts -/

/-- Fragments without further ones inside. -/
def isLeaf : Fragment → Bool
  | .text _ | .delimiter _ _ | .hole _ | .cell _ => true
  | .group _ _ | .choice _ _ _ | .each _ _ _ _ => false

theorem depth_of_mem_traceAll {a : Arguments} {q : QuoteMark} {row : Option RowAt} {c : Position}
    {n : Nat} {fs : List Fragment} (h : ∀ f ∈ fs, f.isLeaf = true) :
    ∀ x ∈ traceAll a q row c n fs, x.position.depth = c.depth := by
  induction fs generalizing n with
  | nil => simp [traceAll]
  | cons f fs ih =>
    obtain ⟨hf, hfs⟩ := List.forall_mem_cons.1 h
    rw [traceAll]
    refine List.forall_mem_append.2 ⟨?_, ih hfs⟩
    cases f with
    | text t | delimiter t kind | hole hole | cell index => simp [trace]
    | group indented children => cases hf
    | choice key main alternative => cases hf
    | each key body empty between => cases hf

/-- An indented group at the root, below leaves that end with a line break. -/
theorem stands_raised {spell : Marker → String} {a : Arguments} {q : QuoteMark}
    {fs gs : List Fragment} (hleaf : ∀ f ∈ fs, f.isLeaf = true)
    (hfs : Carries ⟨true, false, spell, a, q⟩ .margin fs .filled)
    (hgs : Carries ⟨true, true, spell, a, q⟩ .begun gs .begun) :
    Stands true 0 .margin (PlacedStep.actAll true spell {}
      (traceAll a q none [] 0 (fs ++ [.delimiter "" .row, .group true gs]))) := by
  have hopening := hfs none [] 0 {} (by simp) (Sheet.stands_empty true)
  have hflat : Entry.flat (PlacedStep.actAll true spell {} (traceAll a q none [] 0 fs)).entries =
      true := by
    refine Sheet.flat_of_imprints fun y hy => ?_
    rw [PlacedStep.imprints_actAll] at hy
    obtain ⟨x, hx, hxy⟩ := List.mem_filterMap.1 hy
    rw [PlacedStep.position_of_imprint? hxy]
    exact depth_of_mem_traceAll hleaf x hx
  have henter := (hopening.enter_raised hflat).mono (Y := .begun) rfl
  have hdepth : Position.depth [.fragment (0 + fs.length + 1), .indented] = 1 := by
    simp [Position.depth]
  rw [← hdepth] at henter
  have hinner := hgs none _ 0 _ (fun _ => by rw [hdepth]; decide) henter
  rw [hdepth] at hinner
  have htrace : traceAll a q none [] (0 + fs.length) [.delimiter "" .row, .group true gs] =
      ⟨[.fragment (0 + fs.length)], .delimiter "" .row⟩ ::
        ⟨[.fragment (0 + fs.length + 1)], .enter⟩ ::
        (traceAll a q none [.fragment (0 + fs.length + 1), .indented] 0 gs ++
          [⟨[.fragment (0 + fs.length + 1)], .exit⟩]) := by
    simp [traceAll, trace]
  rw [traceAll_append, PlacedStep.actAll_append, htrace, PlacedStep.actAll_cons,
    PlacedStep.actAll_cons, PlacedStep.actAll_append]
  exact hinner.exit fun _ hd => absurd hd (Nat.lt_irrefl 0)

end Fragment

end PreparedSql
