import Mathlib.Data.List.Dedup
import PreparedSql.Proofs.Reading.Conditions

/-!
# Counting with a filter

A dialect may or may not have filters on `COUNT`. Where it has none, the filter moves into the
argument: a row that does not pass it contributes `NULL`, which is not counted. Both forms give the
same number for all rows, whichever of them pass, fail or leave the filter unknown, whichever values
are `NULL`, and with or without duplicates.

Rows are seen through what they make of the parts of an expression. The parts are written in the
words of each dialect, so all that is asked of the rows of two dialects is that they agree about the
filter and about the argument.
-/

namespace PreparedSql

/-- How a row sees expressions: their truth as conditions, and their value, which may be `NULL`. The
number one is not `NULL` in any row. -/
structure RowView (Val : Type) where
  truth : List Token → Truth
  value : List Token → Option Val
  one_isSome : (value [.leaf (.word "1")]).isSome = true

namespace Counted

/-- What a row contributes: nothing if the counted value is `NULL`. A row that is counted for itself
has no value. -/
def contribution {Val : Type} (c : Counted) (r : RowView Val) : Option (Option Val) :=
  match c with
  | .row => some none
  | .operand ts => (r.value ts).map some
  | .guarded condition ts => if r.truth condition = .yes then (r.value ts).map some else none

end Counted

namespace Count

section Value

variable {Val : Type}

/-- A filter that is unknown lets a row pass no more than one that is false. -/
def passing (filter : Option (List Token)) (rows : List (RowView Val)) : List (RowView Val) :=
  match filter with
  | none => rows
  | some ts => rows.filter fun r => r.truth ts = .yes

/-- How many there are, duplicates being counted once if they are to be distinct. -/
def number [DecidableEq Val] (distinct : Bool) (values : List (Option Val)) : Nat :=
  if distinct then values.dedup.length else values.length

/-- The number that the count has for some rows. -/
def value [DecidableEq Val] (c : Count) (rows : List (RowView Val)) : Nat :=
  number c.distinct ((passing c.filter rows).filterMap c.counted.contribution)

/-! ## Equal counts -/

variable {distinct : Bool} {argument argument' : Option (List Token)} {filter filter' : List Token}
  {rows rows' : List (RowView Val)}

/-- Moving the filter into the counted value leaves the values that are counted. -/
theorem filterMap_guarded (rows : List (RowView Val)) (filter ts : List Token) :
    rows.filterMap (Counted.guarded filter ts).contribution =
      (passing (some filter) rows).filterMap (Counted.operand ts).contribution := by
  rw [passing, List.filterMap_filter]
  apply List.filterMap_congr
  intro r _
  simp [Counted.contribution]

/-- A number that stands in for the row is counted as often as the row is. -/
theorem length_filterMap_one (rows : List (RowView Val)) :
    (rows.filterMap (Counted.operand [.leaf (.word "1")]).contribution).length =
      (rows.filterMap Counted.row.contribution).length := by
  induction rows with
  | nil => rfl
  | cons r rows ih =>
    obtain ⟨one, hone⟩ := Option.isSome_iff_exists.1 r.one_isSome
    have hnumber : (Counted.operand [.leaf (.word "1")]).contribution r = some (some one) := by
      simp [Counted.contribution, hone]
    have hrow : Counted.row.contribution r = some none := rfl
    rw [List.filterMap_cons_some hnumber, List.filterMap_cons_some hrow, List.length_cons,
      List.length_cons, ih]

/-- In the words of one dialect, the two forms count alike. Only an argument has values that can be
told apart, so nothing is said of distinct rows. -/
theorem value_guarding [DecidableEq Val] (h : distinct = true → argument.isSome = true)
    (rows : List (RowView Val)) :
    (guarding distinct argument filter).value rows =
      (filtering distinct argument filter).value rows := by
  cases argument with
  | some ts => exact congrArg (number distinct) (filterMap_guarded rows filter ts)
  | none =>
    obtain rfl : distinct = false := by simpa using h
    calc (guarding false none filter).value rows
        = ((passing (some filter) rows).filterMap
            (Counted.operand [.leaf (.word "1")]).contribution).length :=
          congrArg List.length (filterMap_guarded rows filter _)
      _ = (filtering false none filter).value rows := length_filterMap_one _

/-- Two rows agree about the filter and about the argument, each in the words of its dialect. -/
structure Agree (filter filter' : List Token) (argument argument' : Option (List Token))
    (r r' : RowView Val) : Prop where
  truth : r.truth filter = r'.truth filter'
  value : argument.map r.value = argument'.map r'.value

theorem Agree.contribution {r r' : RowView Val} (h : Agree filter filter' argument argument' r r') :
    (argument.elim Counted.row .operand).contribution r =
      (argument'.elim Counted.row .operand).contribution r' := by
  obtain ⟨-, hvalue⟩ := h
  cases argument with
  | none =>
    cases argument' with
    | none => rfl
    | some ts' => cases hvalue
  | some ts =>
    cases argument' with
    | none => cases hvalue
    | some ts' => exact congrArg (Option.map some) (Option.some.inj hvalue)

/-- Rows that agree pass together and contribute the same values. -/
theorem filterMap_passing_congr
    (h : List.Forall₂ (Agree filter filter' argument argument') rows rows') :
    (passing (some filter) rows).filterMap (argument.elim Counted.row .operand).contribution =
      (passing (some filter') rows').filterMap
        (argument'.elim Counted.row .operand).contribution := by
  simp only [passing, List.filterMap_filter]
  induction h with
  | nil => rfl
  | cons hfirst _ ih =>
    have hcontribution := hfirst.contribution
    rw [List.filterMap_cons, List.filterMap_cons, ih, hfirst.truth, hcontribution]

/-- A count in a dialect without filters, and the count in a dialect with them. -/
theorem value_guarding_of_agree [DecidableEq Val]
    (hdistinct : distinct = true → argument.isSome = true)
    (h : List.Forall₂ (Agree filter filter' argument argument') rows rows') :
    (guarding distinct argument filter).value rows =
      (filtering distinct argument' filter').value rows' :=
  (value_guarding hdistinct rows).trans (congrArg (number distinct) (filterMap_passing_congr h))

end Value

end Count

/-! ## Counts as they are written -/

open Draft

/-- Tokens that are read in an expression as it is written somewhere. -/
def Expr.ReadAs (s : Spelling) (a : Arguments) (e : Expr) (ts : List Token) : Prop :=
  ReadIn s a (s.quote = .plain) (e.draft s) ts ∧ Closed .term ts

section Written

variable {s : Spelling} {a : Arguments} {row : Option RowAt} {steps : List Step} {distinct : Bool}
  {argument : Option Expr} {filter : Expr}

theorem Expr.exists_readAs (e : Expr) (hw : Written s.quote a row (e.draft s) steps) :
    ∃ ts, Reads (s.quote = .plain) steps ts ∧ e.ReadAs s a ts := by
  obtain ⟨ts, hts, hclosed, -⟩ := e.framed_draft.readsClosed hw
  exact ⟨ts, hts, ⟨row, steps, hw, hts⟩, hclosed⟩

/-- A parameter that has a value is read as its slot. -/
theorem Expr.ReadAs.eq_slot {p : Param} {v : Value} {ts : List Token} (hv : a.param p = some v)
    (h : (Expr.param p).ReadAs s a ts) : ts = [.leaf (.slot (.param p))] := by
  obtain ⟨⟨_, _, hw, hts⟩, -⟩ := h
  obtain ⟨name, rfl⟩ := hw.param
  simp only [Hole.step, hv] at hts
  cases hts with
  | marker m glued hrest =>
    cases hrest
    rfl

/-- A count with a filter is read in the form of the dialect. -/
theorem Expr.exists_reads_form
    (hw : Written s.quote a row ((Expr.count distinct argument (some filter)).draft s) steps) :
    ∃ ats fts, Reads (s.quote = .plain) steps (Count.form s distinct ats (some fts)).tokens ∧
      Option.Rel (Expr.ReadAs s a) argument ats ∧ filter.ReadAs s a fts := by
  obtain ⟨ats, fts, hreads, hargument, hfilter⟩ :=
    Expr.exists_reads_count hw fun e _ part _ hw => e.exists_readAs hw
  cases hfilter with
  | some hfilter => exact ⟨ats, _, hreads, hargument, hfilter⟩

/-- Without filters, it is written as a count of guarded values. -/
theorem Expr.exists_reads_guarding (hs : s.features.countFilter = false)
    (hw : Written s.quote a row ((Expr.count distinct argument (some filter)).draft s) steps) :
    ∃ ats fts, Reads (s.quote = .plain) steps (Count.guarding distinct ats fts).tokens ∧
      Option.Rel (Expr.ReadAs s a) argument ats ∧ filter.ReadAs s a fts := by
  simpa [Count.form, hs] using Expr.exists_reads_form hw

/-- With filters, it is written as a count and a filter. -/
theorem Expr.exists_reads_filtering (hs : s.features.countFilter = true)
    (hw : Written s.quote a row ((Expr.count distinct argument (some filter)).draft s) steps) :
    ∃ ats fts, Reads (s.quote = .plain) steps (Count.filtering distinct ats fts).tokens ∧
      Option.Rel (Expr.ReadAs s a) argument ats ∧ filter.ReadAs s a fts := by
  simpa [Count.form, hs] using Expr.exists_reads_form hw

end Written

namespace Expr

variable {s s' : Spelling} {distinct : Bool} {argument : Option Expr} {filter : Expr}
  {bare bare' : Option TableId} {ns ns' ns₁ ns₁' : Names} {fs fs' : List Fragment}

/-- A count with a filter has one value, whether or not the dialect has filters on counts. What is
written for a dialect without them is read as a count of values that the filter guards, and what is
written for one with them as a count that is filtered. For all rows that agree about the filter and
the argument in the words of the two dialects, both have the same value: with duplicates or without,
whatever is `NULL`, and where the filter is unknown. -/
theorem count_keeps_value (hs : s.features.countFilter = false)
    (hs' : s'.features.countFilter = true)
    (hrun : (resolveAll s.quote bare ((count distinct argument (some filter)).draft s)).run ns =
      .ok (fs, ns₁))
    (hrun' : (resolveAll s'.quote bare'
      ((count distinct argument (some filter)).draft s')).run ns' = .ok (fs', ns₁'))
    (a : Arguments) (row row' : Option RowAt) :
    ∃ ats fts ats' fts',
      Reads (s.quote = .plain) (Fragment.walkAll a s.quote row fs)
        (Count.guarding distinct ats fts).tokens ∧
      Reads (s'.quote = .plain) (Fragment.walkAll a s'.quote row' fs')
        (Count.filtering distinct ats' fts').tokens ∧
      Option.Rel (ReadAs s a) argument ats ∧ filter.ReadAs s a fts ∧
      Option.Rel (ReadAs s' a) argument ats' ∧ filter.ReadAs s' a fts' ∧
      ∀ {Val : Type} [DecidableEq Val] (rows rows' : List (RowView Val)),
        List.Forall₂ (Count.Agree fts fts' ats ats') rows rows' →
        (Count.guarding distinct ats fts).value rows =
          (Count.filtering distinct ats' fts').value rows' := by
  have hw : Written s.quote a row ((count distinct argument (some filter)).draft s) _ :=
    ⟨bare, ns, fs, ns₁, resolves_of_run hrun, rfl⟩
  have hw' : Written s'.quote a row' ((count distinct argument (some filter)).draft s') _ :=
    ⟨bare', ns', fs', ns₁', resolves_of_run hrun', rfl⟩
  obtain ⟨ats, fts, hreads, hargument, hfilter⟩ := exists_reads_guarding hs hw
  obtain ⟨ats', fts', hreads', hargument', hfilter'⟩ := exists_reads_filtering hs' hw'
  have hdistinct : distinct = true → ats.isSome = true := by
    rintro rfl
    have hnone : (draftOption s argument).isNone = false := Draft.Written.count_argument hw
    cases hargument with
    | some _ => rfl
    | none => cases hnone
  refine ⟨ats, fts, ats', fts', hreads, hreads', hargument, hfilter, hargument', hfilter', ?_⟩
  intro Val _ rows rows' hrows
  exact Count.value_guarding_of_agree hdistinct hrows

/-- Distinct values of a parameter, in rows that pass twice with one value, pass with `NULL`, leave
the filter unknown, fail, and pass with another value. -/
theorem count_keeps_value_distinct :
    let s : Spelling := ⟨.mysql, .backtick⟩
    let s' : Spelling := ⟨.postgresql, .double⟩
    let x : Expr := .param ⟨0⟩
    let filter : Expr := .or [.isNull false x, .binary .eq x (.value (.int32 1))]
    let e : Expr := .count true (some x) (some filter)
    let a : Arguments := { param := fun _ => some (.int32 5) }
    let view (truth : Truth) (value : Option Nat) : RowView Nat :=
      ⟨fun _ => truth, fun ts => if ts = [.leaf (.word "1")] then some 1 else value, by simp⟩
    let rows := [view .yes (some 7), view .yes none, view .unknown (some 8), view .yes (some 7),
      view .no (some 9), view .yes (some 4)]
    s.features.countFilter = false ∧ s'.features.countFilter = true ∧
      ∃ fs ns fs' ns', (resolveAll s.quote none (e.draft s)).run (.start "p" true) = .ok (fs, ns) ∧
        (resolveAll s'.quote none (e.draft s')).run (.start "p" true) = .ok (fs', ns') ∧
        ∃ ats fts ats' fts',
          Reads (s.quote = .plain) (Fragment.walkAll a s.quote none fs)
            (Count.guarding true ats fts).tokens ∧
          Reads (s'.quote = .plain) (Fragment.walkAll a s'.quote none fs')
            (Count.filtering true ats' fts').tokens ∧
          List.Forall₂ (Count.Agree fts fts' ats ats') rows rows ∧
          (Count.guarding true ats fts).value rows = 2 ∧
          (Count.filtering true ats' fts').value rows = 2 := by
  intro s s' x filter e a view rows
  have hs : s.features.countFilter = false := by decide
  have hs' : s'.features.countFilter = true := by decide
  obtain ⟨⟨fs, ns⟩, hrun, -⟩ := Draft.exists_ok_of_any
    (x := (resolveAll s.quote none (e.draft s)).run (.start "p" true)) (P := fun _ => True)
    (by decide +kernel)
  obtain ⟨⟨fs', ns'⟩, hrun', -⟩ := Draft.exists_ok_of_any
    (x := (resolveAll s'.quote none (e.draft s')).run (.start "p" true)) (P := fun _ => True)
    (by decide +kernel)
  obtain ⟨ats, fts, ats', fts', hreads, hreads', hargument, -, hargument', -, hvalue⟩ :=
    count_keeps_value hs hs' hrun hrun' a none none
  let slot : List Token := [.leaf (.slot (.param ⟨0⟩))]
  cases hargument with
  | some hx =>
    cases hargument' with
    | some hx' =>
      obtain rfl := hx.eq_slot rfl
      obtain rfl := hx'.eq_slot rfl
      have hview (truth : Truth) (value : Option Nat) : Count.Agree fts fts' (some slot) (some slot)
          (view truth value) (view truth value) := ⟨rfl, rfl⟩
      have hrows : List.Forall₂ (Count.Agree fts fts' (some slot) (some slot)) rows rows :=
        List.forall₂_same.2 (by simp [rows, hview])
      have htwo : (Count.guarding true (some slot) fts).value rows = 2 := rfl
      exact ⟨hs, hs', fs, ns, fs', ns', hrun, hrun', some slot, fts, some slot, fts', hreads,
        hreads', hrows, htwo, (hvalue rows rows hrows).symm.trans htwo⟩

end Expr

end PreparedSql
