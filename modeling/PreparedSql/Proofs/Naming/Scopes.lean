import PreparedSql.Proofs.Naming.Requests

/-!
# Scopes that close in order

A scope is opened for a nested statement and closed at the mark that was made when it was opened.
When the scopes inside have been closed before it, the last one first, closing a scope restores the
visible aliases, the aliasing and the indentation of the enclosing statement. What was handed out
meanwhile stays handed out.

The marks of the open scopes are kept in a stack. The aliases that were visible when a scope was
opened stay in front while it is open, since no inner scope was opened with fewer of them, so it is
right to cut the list of aliases back to its former length.
-/

namespace PreparedSql

/-- What is done to the names while a statement is written. -/
inductive Move where
  | aliasOf (t : TableLabel)
  | param (p : Param)
  | reserve (name : String)
  | setAliasing (aliasing : Bool)
  | indent
  | outdent
  | openScope
  /-- Closes the scope opened last. -/
  | closeScope
deriving DecidableEq, Repr

/-- Whether `depth` scopes are closed that were open before, and otherwise each scope that is opened
is closed again, the last one first. -/
def Move.nested : (depth : Nat) → List Move → Bool
  | depth, [] => depth == 0
  | depth, .openScope :: moves => nested (depth + 1) moves
  | 0, .closeScope :: _ => false
  | depth + 1, .closeScope :: moves => nested depth moves
  | depth, _ :: moves => nested depth moves

/-- Names, and the marks of the scopes that are open, the last one first. -/
structure Session where
  names : Names
  marks : List Names.Mark := []
deriving DecidableEq, Repr

namespace Session

/-- What a move does. Nothing is closed when no scope is open. -/
def after (s : Session) : Move → Session
  | .aliasOf t => { s with names := s.names.after (.aliasOf t) }
  | .param p => { s with names := s.names.after (.param p) }
  | .reserve name => { s with names := s.names.after (.reserve name) }
  | .setAliasing aliasing => { s with names := s.names.after (.setAliasing aliasing) }
  | .indent => { s with names := s.names.indented }
  | .outdent => { s with names := s.names.outdented }
  | .openScope => ⟨s.names.openScope, s.names.mark :: s.marks⟩
  | .closeScope =>
    match s.marks with
    | [] => s
    | m :: marks => ⟨s.names.closeScope m, marks⟩

/-- What moves in order do. -/
def run (s : Session) (moves : List Move) : Session := moves.foldl after s

@[simp] theorem run_nil (s : Session) : s.run [] = s := rfl

@[simp] theorem run_cons (s : Session) (move : Move) (moves : List Move) :
    s.run (move :: moves) = (s.after move).run moves := rfl

/-- Moves between the opening of a scope and its closing. -/
def scope (s : Session) (moves : List Move) : Session :=
  s.run (.openScope :: (moves ++ [.closeScope]))

theorem run_append (s : Session) (moves moves' : List Move) :
    s.run (moves ++ moves') = (s.run moves).run moves' :=
  List.foldl_append

end Session

/-! ## What is handed out -/

namespace Names

/-- The names `ns'` come from `ns` by handing out more: names stay taken, parameters keep their
names, and the alias sequence goes on. -/
structure Advances (ns ns' : Names) : Prop where
  taken : ns.taken ⊆ ns'.taken
  params : ns.params <+: ns'.params
  drawn : ns.drawn ≤ ns'.drawn

namespace Advances

variable {ns ns' ns'' : Names}

theorem refl (ns : Names) : Advances ns ns :=
  ⟨List.Subset.refl _, List.prefix_rfl, Nat.le_refl _⟩

theorem trans (h : Advances ns ns') (h' : Advances ns' ns'') : Advances ns ns'' :=
  ⟨List.Subset.trans h.taken h'.taken, h.params.trans h'.params, Nat.le_trans h.drawn h'.drawn⟩

end Advances

theorem drawn_take (ns : Names) (name : String) : (ns.take name).drawn = ns.drawn := by
  unfold take
  split <;> rfl

theorem drawn_le_choose (ns : Names) (t : TableLabel) : ns.drawn ≤ (ns.choose t).2.drawn := by
  unfold choose
  split
  · exact Nat.le_refl _
  · exact Nat.le_succ_of_le (Alias.le_firstFree ns.isTaken ns.taken.length ns.drawn)

theorem drawn_le_after (ns : Names) (request : Request) :
    ns.drawn ≤ (ns.after request).drawn := by
  cases request with
  | aliasOf t =>
    show ns.drawn ≤ (ns.aliasOf t).2.drawn
    unfold aliasOf
    split
    · exact Nat.le_refl _
    · show ns.drawn ≤ ((ns.choose t).2.take (ns.choose t).1).drawn
      rw [drawn_take]
      exact ns.drawn_le_choose t
  | param p => simp [after]
  | reserve name => exact Nat.le_of_eq (ns.drawn_take name).symm
  | setAliasing aliasing | openScope | closeScope m => exact Nat.le_refl _

theorem advances_after (ns : Names) (request : Request) : ns.Advances (ns.after request) :=
  ⟨ns.taken_after request, (ns.extends_after request).params, ns.drawn_le_after request⟩

end Names

namespace Session

variable {outer s : Session} {depth : Nat} {move : Move} {moves : List Move}

theorem advances_move (s : Session) (move : Move) : s.names.Advances (s.after move).names := by
  cases move with
  | aliasOf t => exact s.names.advances_after (.aliasOf t)
  | param p => exact s.names.advances_after (.param p)
  | reserve name => exact s.names.advances_after (.reserve name)
  | setAliasing aliasing => exact s.names.advances_after (.setAliasing aliasing)
  | indent | outdent => exact ⟨List.Subset.refl _, List.prefix_rfl, Nat.le_refl _⟩
  | openScope => exact s.names.advances_after .openScope
  | closeScope =>
    cases hmarks : s.marks with
    | nil =>
      simp only [after, hmarks]
      exact .refl s.names
    | cons m marks =>
      simp only [after, hmarks]
      exact s.names.advances_after (.closeScope m)

/-- Nothing that was handed out is taken back. -/
theorem advances_run (s : Session) (moves : List Move) : s.names.Advances (s.run moves).names := by
  induction moves generalizing s with
  | nil => exact .refl s.names
  | cons move moves ih => exact (s.advances_move move).trans (ih (s.after move))

/-! ## What is visible -/

/-- The session `s` is in a scope opened in `outer`, with `depth` scopes open inside. No alias that
was visible in `outer` was given up, and closing an inner scope will give up none. -/
def Within (outer : Session) (depth : Nat) (s : Session) : Prop :=
  outer.names.aliases <+: s.names.aliases ∧
    ∃ inner, s.marks = inner ++ outer.names.mark :: outer.marks ∧ inner.length = depth ∧
      ∀ m ∈ inner, outer.names.aliases.length ≤ m.visible

namespace Within

theorem openScope (outer : Session) : Within outer 0 (outer.after .openScope) :=
  ⟨List.prefix_rfl, [], rfl, rfl, nofun⟩

/-- Outer aliases are visible inside. -/
theorem lookup_eq_some (h : Within outer depth s) {t : TableId} {name : String}
    (hlookup : outer.names.lookup t = some name) : s.names.lookup t = some name := by
  obtain ⟨rest, hrest⟩ := h.1
  have hfound : outer.names.aliases.lookup t = some name := hlookup
  rw [Names.lookup, ← hrest, List.lookup_append, hfound]
  rfl

/-- Names that change without closing a scope keep what is visible. -/
theorem setNames (h : Within outer depth s) {names : Names}
    (haliases : s.names.aliases <+: names.aliases) : Within outer depth { s with names } :=
  ⟨h.1.trans haliases, h.2⟩

theorem request (h : Within outer depth s) {request : Names.Request}
    (hclose : ∀ m, request ≠ .closeScope m) :
    Within outer depth { s with names := s.names.after request } :=
  h.setNames (Names.aliases_after hclose)

/-- A move stays inside as long as it does not close the scope itself. -/
theorem step (h : Within outer depth s) (hnested : Move.nested depth (move :: moves) = true) :
    ∃ depth', Move.nested depth' moves = true ∧ Within outer depth' (s.after move) := by
  cases move with
  | aliasOf t => exact ⟨depth, by simpa [Move.nested] using hnested, h.request nofun⟩
  | param p => exact ⟨depth, by simpa [Move.nested] using hnested, h.request nofun⟩
  | reserve name => exact ⟨depth, by simpa [Move.nested] using hnested, h.request nofun⟩
  | setAliasing aliasing => exact ⟨depth, by simpa [Move.nested] using hnested, h.request nofun⟩
  | indent | outdent =>
    exact ⟨depth, by simpa [Move.nested] using hnested, h.setNames List.prefix_rfl⟩
  | openScope =>
    obtain ⟨haliases, inner, hmarks, rfl, hinner⟩ := h
    refine ⟨inner.length + 1, by simpa [Move.nested] using hnested, haliases,
      s.names.mark :: inner, congrArg (s.names.mark :: ·) hmarks, rfl, ?_⟩
    exact List.forall_mem_cons.2 ⟨haliases.length_le, hinner⟩
  | closeScope =>
    obtain ⟨haliases, inner, hmarks, rfl, hinner⟩ := h
    cases inner with
    | nil => simp [Move.nested] at hnested
    | cons m inner =>
      obtain ⟨hm, hinner⟩ := List.forall_mem_cons.1 hinner
      refine ⟨inner.length, by simpa [Move.nested] using hnested, ?_⟩
      have hafter : s.after .closeScope =
          ⟨s.names.closeScope m, inner ++ outer.names.mark :: outer.marks⟩ := by
        simp [after, hmarks]
      rw [hafter]
      exact ⟨List.prefix_take_iff.2 ⟨haliases, hm⟩, inner, rfl, rfl, hinner⟩

theorem run (h : Within outer depth s) {moves' : List Move}
    (hnested : Move.nested depth (moves ++ moves') = true) :
    ∃ depth', Move.nested depth' moves' = true ∧ Within outer depth' (s.run moves) := by
  induction moves generalizing depth s with
  | nil => exact ⟨depth, hnested, h⟩
  | cons move moves ih =>
    obtain ⟨depth', hnested', h'⟩ := h.step hnested
    exact ih h' hnested'

/-- Closing the scope gives back what was visible in `outer`. -/
theorem closeScope (h : Within outer 0 s) :
    s.after .closeScope =
      ⟨{ s.names with
          aliases := outer.names.aliases
          aliasing := outer.names.aliasing
          indent := outer.names.indent }, outer.marks⟩ := by
  obtain ⟨haliases, inner, hmarks, hinner, -⟩ := h
  obtain rfl := List.length_eq_zero_iff.1 hinner
  have htake : s.names.aliases.take outer.names.aliases.length = outer.names.aliases :=
    (List.prefix_iff_eq_take.1 haliases).symm
  simp [after, hmarks, Names.closeScope, Names.mark, htake]

end Within

/-- A scope restores what it was opened on. Whatever is done between, as long as inner scopes are
opened and closed in order, closing the scope gives every table the alias that it had, or none, and
goes back to the former aliasing and indentation. Meanwhile nothing that was handed out is taken
back. The scope starts with the default aliasing, and all outer aliases are visible in it from
beginning to end. -/
theorem scope_restores (outer : Session) (moves : List Move) (h : Move.nested 0 moves = true) :
    (∀ t, (outer.scope moves).names.lookup t = outer.names.lookup t) ∧
      (outer.scope moves).names.aliasing = outer.names.aliasing ∧
      (outer.scope moves).names.indent = outer.names.indent ∧
      (outer.scope moves).marks = outer.marks ∧
      (∀ before later, before ++ later <+: .openScope :: (moves ++ [.closeScope]) →
        (outer.run before).names.Advances (outer.run (before ++ later)).names) ∧
      (outer.run [.openScope]).names.aliasing = outer.names.defaultAliasing ∧
      (∀ t, (outer.run [.openScope]).names.lookup t = outer.names.lookup t) ∧
      ∀ before, before <+: moves → ∀ t name, outer.names.lookup t = some name →
        (outer.run (.openScope :: before)).names.lookup t = some name := by
  have hopen := Within.openScope outer
  have hinner : Within outer 0 ((outer.after .openScope).run moves) := by
    obtain ⟨depth, hdepth, hwithin⟩ := hopen.run ((List.append_nil moves).symm ▸ h)
    obtain rfl : depth = 0 := by simpa [Move.nested] using hdepth
    exact hwithin
  have hscope : outer.scope moves = ((outer.after .openScope).run moves).after .closeScope := by
    rw [scope, run_cons, run_append]
    rfl
  rw [hscope, hinner.closeScope]
  refine ⟨fun t => rfl, rfl, rfl, rfl, fun before later _ => ?_, rfl, fun t => rfl, ?_⟩
  · rw [run_append]
    exact (outer.run before).advances_run later
  · rintro before ⟨rest, rfl⟩ t name hlookup
    obtain ⟨depth, -, hwithin⟩ := hopen.run h
    exact hwithin.lookup_eq_some hlookup

/-- A table is named in an inner scope and, when its alias is hidden, once more behind that scope.
The alias of the enclosing statement, its aliasing and its indentation survive both. -/
theorem scope_restores_nested :
    let outer : Session :=
      ⟨{ aliases := [(⟨0⟩, "Orders")], taken := ["orders"], aliasing := false, indent := 2 }, []⟩
    let derived : TableLabel := ⟨⟨1⟩, none, none⟩
    let moves : List Move :=
      [.indent, .openScope, .setAliasing false, .aliasOf derived, .outdent, .param ⟨7⟩,
        .closeScope, .reserve "B", .aliasOf derived]
    Move.nested 0 moves = true ∧
      (outer.run (.openScope :: moves.take 4)).names.lookup ⟨1⟩ = some "a" ∧
      (outer.run (.openScope :: moves)).names.lookup ⟨1⟩ = some "c" ∧
      (outer.scope moves).names.lookup ⟨1⟩ = none ∧
      (outer.scope moves).names.aliasing = false ∧
      (outer.run (.openScope :: moves.take 6)).names.lookup ⟨0⟩ = some "Orders" := by
  intro outer derived moves
  obtain ⟨hlookup, haliasing, -, -, -, -, -, hvisible⟩ := scope_restores outer moves (by decide)
  exact ⟨by decide, by decide +kernel, by decide +kernel, hlookup ⟨1⟩, haliasing,
    hvisible (moves.take 6) (List.take_prefix 6 moves) ⟨0⟩ "Orders" (by decide)⟩

end Session

end PreparedSql
