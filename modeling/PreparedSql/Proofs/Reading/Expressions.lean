import PreparedSql.Proofs.Reading.Grouping

/-!
# Reading expressions

Whatever a sturdy expression is written as, a reader groups it as it should be. There
is one lemma for each kind of expression, about an expression whose parts are read as
they should be; the recursion puts them together.
-/

namespace PreparedSql

open Draft

theorem complete_of_intercalate {between : List Step} {pieces : List (List Step)}
    (h : Complete (List.intercalate between pieces)) : ∀ piece ∈ pieces, Complete piece := by
  induction pieces with
  | nil => simp
  | cons piece pieces ih =>
    cases pieces with
    | nil => simpa using h
    | cons next pieces =>
      rw [List.intercalate_cons_cons, complete_append, complete_append] at h
      exact List.forall_mem_cons.2 ⟨h.1.1, ih h.2⟩

/-- Wherever the expression is written, it is read as it should be. -/
def Expr.Readable (s : Spelling) (a : Arguments) (free : Prop) (e : Expr) : Prop :=
  ∀ row steps, Written s.quote a row (e.draft s) steps → Complete steps →
    ∃ ts us, Reads free steps ts ∧ Spells e.strength ts us ∧ e.Terms s a free us

section Readable

variable {s : Spelling} {a : Arguments} {free : Prop} {row : Option RowAt} {steps : List Step}
  {e : Expr} {es : List Expr}

/-- The comparison that stands in for a test without alternatives. -/
theorem Reads.falsity : Reads free [.token "1 = 0"] (Token.comparison 1 0) :=
  .of_text (Token.ofText_of_mem (by simp [Token.wordings]))

theorem Spells.falsity : Spells 1 (Token.comparison 1 0) [.truth false] :=
  .weaken (.one (by decide) (Derives.truth false)) (by decide : 1 ≤ 4)

theorem Reads.conjunctions {pieces : List (List Step)} {tss : List (List Token)}
    (h : List.Forall₂ (Reads free) pieces tss) :
    Reads free (List.intercalate [.token "AND"] pieces)
      (List.intercalate [.connective .and] tss) :=
  .intercalate (.of_text (Token.ofText_of_mem (by simp [Token.wordings]))) h

theorem Expr.termsEach_iff {tss : List (List Tree)} :
    Expr.TermsEach s a free es tss ↔ List.Forall₂ (Expr.Terms s a free) es tss := by
  induction es generalizing tss with
  | nil => simp [Expr.TermsEach]
  | cons e es ih => simp [Expr.TermsEach, ih, List.forall₂_cons_left_iff]

/-- An expression that is parenthesised if need be. -/
theorem Expr.Readable.parensIf (h : e.Readable s a free) {b : Bool}
    (hb : b = false → 2 ≤ e.strength) (hw : Written s.quote a row (parensIf b (e.draft s)) steps)
    (hm : Complete steps) :
    ∃ ts us, Reads free steps ts ∧ e.Terms s a free us ∧
      Derives (if b then 7 else e.strength) ts (.any us) := by
  cases b with
  | false =>
    obtain ⟨ts, us, hts, hspells, hterms⟩ := h row steps hw hm
    exact ⟨ts, us, hts, hterms, hspells.derives_of_le (hb rfl)⟩
  | true =>
    obtain ⟨inner, hinner, rfl⟩ := hw.bracket
    have hopening : Token.ofText "(" = [.opening] :=
      Token.ofText_of_mem (by simp [Token.wordings])
    obtain ⟨ts, us, hts, hspells, hterms⟩ := h row inner hinner (by simp_all)
    exact ⟨_, us, hts.bracket "(", hterms, hopening ▸ .parens hspells.derives⟩

theorem Expr.Readable.operand (h : e.Readable s a free)
    (hw : Written s.quote a row (operand e (e.draft s)) steps) (hm : Complete steps) :
    ∃ ts us, Reads free steps ts ∧ e.Terms s a free us ∧
      Derives e.operandStrength ts (.any us) :=
  h.parensIf (fun hc => Nat.le_of_succ_le (Expr.le_strength_of_not_compound hc)) hw hm

/-- Parts made of expressions, each read by itself. -/
theorem exists_each {P : List Token → List Tree → Prop} {part : Expr → List Draft}
    {pieces : List (List Step)}
    (h : ∀ e ∈ es, ∀ steps, Written s.quote a row (part e) steps → Complete steps →
      ∃ ts us, Reads free steps ts ∧ e.Terms s a free us ∧ P ts us)
    (hw : List.Forall₂ (Written s.quote a row) (es.map part) pieces)
    (hm : ∀ piece ∈ pieces, Complete piece) :
    ∃ tss uss, List.Forall₂ (Reads free) pieces tss ∧ Expr.TermsEach s a free es uss ∧
      List.Forall₂ P tss uss := by
  induction es generalizing pieces with
  | nil =>
    cases hw
    exact ⟨[], [], .nil, rfl, .nil⟩
  | cons e es ih =>
    obtain _ | ⟨hfirst, hrest⟩ := hw
    rw [List.forall_mem_cons] at hm h
    obtain ⟨ts, us, hts, hterms, hp⟩ := h.1 _ hfirst hm.1
    obtain ⟨tss, uss, htss, heach, hps⟩ := ih h.2 hrest hm.2
    exact ⟨ts :: tss, us :: uss, .cons hts htss, ⟨us, uss, hterms, heach, rfl⟩, .cons hp hps⟩

/-- An expression that is a single term. -/
theorem Expr.Readable.of_single {k : Nat} (hstrength : e.strength = k) (hk : 2 ≤ k)
    (h : ∀ row steps, Written s.quote a row (e.draft s) steps → Complete steps →
      ∃ ts t, Reads free steps ts ∧ Derives k ts t ∧ e.Terms s a free [t]) :
    e.Readable s a free := by
  intro row steps hw hm
  obtain ⟨ts, t, hts, ht, hterms⟩ := h row steps hw hm
  exact ⟨ts, [t], hts, hstrength ▸ .one hk ht, hterms⟩

namespace Expr

/-! ### Operands of a single token -/

theorem readable_value (v : Value) : (Expr.value v).Readable s a free := by
  refine .of_single (k := 7) rfl (by decide) fun row steps hw _ => ?_
  simp only [Expr.draft, literal] at hw
  split at hw
  · next w hw' =>
    obtain rfl := hw.text
    exact ⟨_, _, .word fun _ => Token.ofText_literal hw', .leaf _, w, hw', rfl⟩
  · exact hw.fault.elim

theorem readable_column (hq : s.quote = .plain → free) (t : TableId) (name : String) :
    (Expr.column t name).Readable s a free := by
  refine .of_single (k := 7) rfl (by decide) fun row steps hw _ => ?_
  obtain ⟨w, hname, rfl⟩ := hw.column
  refine ⟨_, _, .word fun hfree => ?_, .leaf _, w, hname, rfl⟩
  have hquote : s.quote ≠ .plain := fun h => hfree (hq h)
  rcases hname with rfl | ⟨table, rfl⟩
  · exact Token.ofText_quote hquote name
  · exact Token.ofText_column hquote table name

theorem readable_param (p : Param) : (Expr.param p).Readable s a free := by
  refine .of_single (k := 7) rfl (by decide) fun row steps hw hm => ?_
  obtain ⟨name, rfl⟩ := hw.param
  cases hp : a.param p with
  | none => simp [Hole.step, hp, Step.missing?] at hm
  | some v =>
    simp only [Hole.step, hp]
    exact ⟨_, _, .marker _ false .nil, .leaf _, rfl⟩

/-! ### Logical connectives -/

theorem readable_and (h : ∀ e ∈ es, e.Readable s a free) : (Expr.and es).Readable s a free := by
  refine .of_single (k := 2) rfl (by decide) fun row steps hw hm => ?_
  simp only [Expr.draft, conjunction] at hw
  split at hw
  · next hes =>
    obtain rfl := List.isEmpty_iff.1 hes
    obtain rfl := hw.text
    have htext : Token.ofText "1 = 1" = Token.comparison 1 1 :=
      Token.ofText_of_mem (by simp [Token.wordings])
    exact ⟨_, _, .of_text htext, (Derives.truth true).weaken (by decide), [], rfl, rfl⟩
  · next hes =>
    rw [Expr.draftEach_eq_map, List.zipWith_map, List.zipWith_self] at hw
    obtain ⟨pieces, hpieces, rfl⟩ := hw.intercalate Written.text
    have hterm : ∀ e ∈ es, ∀ steps,
        Written s.quote a row (parensIf e.splitsConjunction (e.draft s)) steps → Complete steps →
        ∃ ts us, Reads free steps ts ∧ e.Terms s a free us ∧ Derives 3 ts (.any us) := by
      intro e he steps hw hm
      have hbare (hc : e.splitsConjunction = false) : 3 ≤ e.strength := le_strength_of_not_splits hc
      obtain ⟨ts, us, hts, hterms, ht⟩ :=
        (h e he).parensIf (fun hc => Nat.le_of_succ_le (hbare hc)) hw hm
      refine ⟨ts, us, hts, hterms, ht.weaken ?_⟩
      split
      · decide
      · next hc => exact hbare (by simpa using hc)
    obtain ⟨tss, uss, htss, heach, hderives⟩ :=
      exists_each hterm hpieces (complete_of_intercalate hm)
    have hne : tss ≠ [] := by
      rintro rfl
      cases htss
      simp_all
    exact ⟨_, _, .conjunctions htss, .all hne (List.forall₂_map_right_iff.2 hderives), uss, heach,
      rfl⟩

theorem readable_or (h : ∀ e ∈ es, e.Readable s a free) : (Expr.or es).Readable s a free := by
  intro row steps hw hm
  simp only [Expr.draft, disjunction, Expr.draftEach_eq_map] at hw
  split at hw
  · next hes =>
    obtain rfl : es = [] := by simpa using hes
    obtain rfl := hw.text
    exact ⟨_, _, .falsity, .falsity, [], rfl, rfl⟩
  · next hes =>
    obtain ⟨pieces, hpieces, rfl⟩ := hw.intercalate Written.text
    have hterm : ∀ e ∈ es, ∀ steps, Written s.quote a row (e.draft s) steps → Complete steps →
        ∃ ts us, Reads free steps ts ∧ e.Terms s a free us ∧ Spells 1 ts us := by
      intro e he steps hw hm
      obtain ⟨ts, us, hts, hspells, hterms⟩ := h e he row steps hw hm
      exact ⟨ts, us, hts, hterms, hspells.weaken e.strength_pos⟩
    obtain ⟨tss, uss, htss, heach, hspells⟩ :=
      exists_each hterm hpieces (complete_of_intercalate hm)
    have hword : Token.ofText "OR" = [.connective .or] :=
      Token.ofText_of_mem (by simp [Token.wordings])
    have hne : tss ≠ [] := by
      rintro rfl
      cases htss
      simp_all
    refine ⟨_, _, .intercalate (.of_text hword) htss, .intercalate hne hspells, uss, heach, ?_⟩
    simp_all

theorem readable_not (h : e.Readable s a free) : (Expr.not e).Readable s a free := by
  refine .of_single (k := 3) rfl (by decide) fun row steps hw hm => ?_
  obtain ⟨inner, hinner, rfl⟩ := hw.bracket
  obtain ⟨ts, us, hts, hspells, hterms⟩ := h row inner hinner (by simp_all)
  have hopening : Token.ofText "NOT (" = [.not, .opening] :=
    Token.ofText_of_mem (by simp [Token.wordings])
  have hparens : Derives 7 (.opening :: ts ++ [.closing]) (.any us) := .parens hspells.derives
  exact ⟨_, _, hts.bracket "NOT (", hopening ▸ .not (hparens.weaken (by decide)), us, hterms, rfl⟩

theorem readable_choice {key : Key} {main alternative : Expr} (hmain : main.Readable s a free)
    (halternative : alternative.Readable s a free) :
    (Expr.choice key main alternative).Readable s a free := by
  intro row steps hw hm
  obtain ⟨inner, hinner, rfl⟩ := hw.choice
  rw [complete_append] at hm
  have hsettle : Reads free [.settle false] [] := .settle false .nil
  cases hkey : a.alternative key with
  | true =>
    rw [hkey, if_pos rfl] at hinner
    obtain ⟨ts, us, hts, hspells, hterms⟩ := halternative row inner hinner hm.1
    have hboth := hspells.weaken (Nat.min_le_right main.strength alternative.strength)
    exact ⟨_, us, hts.append hsettle, by simpa [Expr.strength] using hboth, .inl ⟨hkey, hterms⟩⟩
  | false =>
    rw [hkey, if_neg Bool.false_ne_true] at hinner
    obtain ⟨ts, us, hts, hspells, hterms⟩ := hmain row inner hinner hm.1
    have hboth := hspells.weaken (Nat.min_le_left main.strength alternative.strength)
    exact ⟨_, us, hts.append hsettle, by simpa [Expr.strength] using hboth, .inr ⟨hkey, hterms⟩⟩

/-! ### Comparisons and tests -/

/-- Two operands with a connective between. -/
theorem exists_connective {c : Connective} {word : String} {lhs rhs : Expr}
    (hword : Token.ofText word = [.connective c]) (hl : lhs.Readable s a free)
    (hr : rhs.Readable s a free) (hlhs : c.strength ≤ lhs.operandStrength)
    (hrhs : c.strength < rhs.operandStrength)
    (hw : Written s.quote a row
      (operand lhs (lhs.draft s) ++ .text word :: operand rhs (rhs.draft s)) steps)
    (hm : Complete steps) :
    ∃ ts us vs, Reads free steps ts ∧ lhs.Terms s a free us ∧ rhs.Terms s a free vs ∧
      Derives c.strength ts (.connective c (.any us) (.any vs)) := by
  obtain ⟨left, rest, hleft, hrest, rfl⟩ := hw.append
  obtain ⟨middle, right, hmiddle, hright, rfl⟩ := hrest.cons
  obtain rfl := hmiddle.text
  simp only [complete_append] at hm
  obtain ⟨ts, us, hts, hus, ht⟩ := hl.operand hleft hm.1
  obtain ⟨ts', vs, hts', hvs, ht'⟩ := hr.operand hright hm.2.2
  exact ⟨_, us, vs, hts.append ((Reads.of_text hword).append hts'), hus, hvs,
    .connective (ht.weaken hlhs) (ht'.weaken hrhs)⟩

theorem readable_like {negated : Bool} {pattern : Expr} (he : e.Readable s a free)
    (hp : pattern.Readable s a free) (hes : 4 ≤ e.operandStrength)
    (hps : 4 < pattern.operandStrength) : (Expr.like negated e pattern).Readable s a free := by
  refine .of_single (k := 4) rfl (by decide) fun row steps hw hm => ?_
  have hword : Token.ofText (if negated then "NOT LIKE" else "LIKE") =
      [.connective (.like negated)] :=
    Token.ofText_of_mem (by cases negated <;> simp [Token.wordings])
  obtain ⟨ts, us, vs, hts, hus, hvs, ht⟩ := exists_connective hword he hp hes hps hw hm
  exact ⟨ts, _, hts, ht, us, vs, hus, hvs, rfl⟩

/-- An operand and the test for `NULL` after it. -/
theorem exists_isNull {negated : Bool} (h : e.Readable s a free) (hs : 4 ≤ e.operandStrength)
    (hw : Written s.quote a row
      (operand e (e.draft s) ++ [.text (if negated then "IS NOT NULL" else "IS NULL")]) steps)
    (hm : Complete steps) :
    ∃ ts us, Reads free steps ts ∧ e.Terms s a free us ∧
      Derives 4 ts (.isNull negated (.any us)) := by
  obtain ⟨first, last, hfirst, hlast, rfl⟩ := hw.append
  obtain rfl := hlast.text
  rw [complete_append] at hm
  have hword : Token.ofText (if negated then "IS NOT NULL" else "IS NULL") = [.isNull negated] :=
    Token.ofText_of_mem (by cases negated <;> simp [Token.wordings])
  obtain ⟨ts, us, hts, hus, ht⟩ := h.operand hfirst hm.1
  exact ⟨_, us, hts.append (.of_text hword), hus, .isNull negated (ht.weaken hs)⟩

theorem readable_isNull {negated : Bool} (h : e.Readable s a free) (hs : 4 ≤ e.operandStrength) :
    (Expr.isNull negated e).Readable s a free := by
  refine .of_single (k := 4) rfl (by decide) fun row steps hw hm => ?_
  obtain ⟨ts, us, hts, hus, ht⟩ := exists_isNull h hs hw hm
  exact ⟨ts, _, hts, ht, us, hus, rfl⟩

theorem comparison_of_nullTest {op : BinaryOp} {rhs : Expr} {negated : Bool} (lhs : Expr)
    (l r : List Draft) (h : nullTest? op rhs = some negated) :
    op.strength = 4 ∧ comparison op lhs rhs l r =
      operand lhs l ++ [.text (if negated then "IS NOT NULL" else "IS NULL")] := by
  unfold nullTest? at h
  split at h
  · next hnull =>
    cases op <;> cases h <;> simp [comparison, hnull, BinaryOp.strength]
  · cases h

theorem comparison_of_no_nullTest {op : BinaryOp} {lhs rhs : Expr} {l r : List Draft}
    (h : nullTest? op rhs = none) :
    comparison op lhs rhs l r = operand lhs l ++ .text op.sql :: operand rhs r := by
  unfold nullTest? at h
  split at h
  · cases op with
    | eq => cases h
    | ne => cases h
    | _ => rfl
  · next hnull => cases op <;> simp [comparison, hnull]

theorem readable_binary {op : BinaryOp} {lhs rhs : Expr} (hl : lhs.Readable s a free)
    (hr : rhs.Readable s a free) (hlhs : op.strength ≤ lhs.operandStrength)
    (hrhs : op.strength < rhs.operandStrength) : (Expr.binary op lhs rhs).Readable s a free := by
  have hop := op.four_le_strength
  refine .of_single (k := op.strength) rfl (by omega) fun row steps hw hm => ?_
  simp only [Expr.draft] at hw
  cases hnull : nullTest? op rhs with
  | some negated =>
    obtain ⟨hfour, hdraft⟩ := comparison_of_nullTest lhs (lhs.draft s) (rhs.draft s) hnull
    rw [hdraft] at hw
    obtain ⟨ts, us, hts, hus, ht⟩ := exists_isNull hl (hfour ▸ hlhs) hw hm
    exact ⟨ts, _, hts, hfour ▸ ht, us, hus, .inl ⟨negated, hnull, rfl⟩⟩
  | none =>
    rw [comparison_of_no_nullTest hnull] at hw
    have hword : Token.ofText op.sql = [.connective (.binary op)] :=
      Token.ofText_of_mem (by cases op <;> simp [Token.wordings, BinaryOp.sql])
    obtain ⟨ts, us, vs, hts, hus, hvs, ht⟩ := exists_connective hword hl hr hlhs hrhs hw hm
    exact ⟨ts, _, hts, ht, us, hus, .inr ⟨hnull, vs, hvs, rfl⟩⟩

/-! ### Brackets -/

/-- An operand and the membership test after it. -/
theorem exists_isIn {ds : List Draft} {Q : List Token → Prop} (h : e.Readable s a free)
    (hs : 4 ≤ e.operandStrength)
    (hcontent : ∀ steps, Written s.quote a row ds steps → Complete steps →
      ∃ content p, Reads free steps content ∧ Closed p content ∧ Q content)
    (hw : Written s.quote a row
      (operand e (e.draft s) ++ (.text "IN (" :: ds ++ [.text ")"])) steps)
    (hm : Complete steps) :
    ∃ ts us content, Reads free steps ts ∧ e.Terms s a free us ∧ Q content ∧
      Derives 4 ts (.isIn (.any us) content) := by
  obtain ⟨first, rest, hfirst, hrest, rfl⟩ := hw.append
  obtain ⟨inner, hinner, rfl⟩ := hrest.bracket
  simp only [complete_append, complete_cons] at hm
  obtain ⟨ts, us, hts, hus, ht⟩ := h.operand hfirst hm.1
  obtain ⟨content, p, hread, hclosed, hQ⟩ := hcontent inner hinner hm.2.1.2
  have hopening : Token.ofText "IN (" = [.isIn] :=
    Token.ofText_of_mem (by simp [Token.wordings])
  have htokens := hts.append (hread.bracket "IN (")
  rw [hopening] at htokens
  exact ⟨_, us, content, htokens, hus, hQ, by simpa using Derives.isIn (ht.weaken hs) hclosed⟩

/-- Whatever a query is written as, it starts with `SELECT`. -/
theorem exists_query (hq : s.quote = .plain → free) {q : Query}
    (hw : Written s.quote a row (q.draft s) steps) :
    ∃ content, Reads free steps (.select :: content) ∧ Closed .query (.select :: content) ∧
      ReadIn s a free (q.draft s) (.select :: content) := by
  obtain ⟨ts, hts, hclosed, hstart⟩ := q.framed_draft.readsClosed hw
  obtain ⟨content, rfl⟩ : ∃ content, ts = .select :: content := by
    cases ts with
    | nil => cases hstart rfl
    | cons t content =>
      cases hstart rfl
      exact ⟨content, rfl⟩
  exact ⟨content, hts.mono hq, hclosed, row, steps, hw, hts.mono hq⟩

/-- A query in parentheses, or after a word that brings its own. -/
theorem exists_enclosed (hq : s.quote = .plain → free) {opening : String} {q : Query}
    (hw : Written s.quote a row (enclosed opening (q.draft s)) steps) :
    ∃ content, Reads free steps (Token.ofText opening ++ .select :: content ++ [.closing]) ∧
      Closed .query (.select :: content) ∧ ReadIn s a free (q.draft s) (.select :: content) := by
  obtain ⟨inner, hinner, rfl⟩ := hw.enclosed
  obtain ⟨content, hread, hclosed, hin⟩ := exists_query hq hinner
  refine ⟨content, ?_, hclosed, hin⟩
  have hgroup : Reads free (.enter :: inner ++ [.exit]) (.select :: content) := by
    simpa using Reads.enter (hread.append (.exit .nil))
  exact hgroup.bracket opening

theorem readable_inQuery (hq : s.quote = .plain → free) {q : Query} (h : e.Readable s a free)
    (hs : 4 ≤ e.operandStrength) : (Expr.inQuery e q).Readable s a free := by
  refine .of_single (k := 4) rfl (by decide) fun row steps hw hm => ?_
  have hcontent : ∀ steps, Written s.quote a row [nested (q.draft s)] steps → Complete steps →
      ∃ content p, Reads free steps content ∧ Closed p content ∧
        ReadIn s a free (q.draft s) content := by
    intro steps hw _
    obtain ⟨inner, hinner, rfl⟩ := hw.scope.group
    obtain ⟨content, hread, hclosed, hin⟩ := exists_query hq hinner
    exact ⟨_, _, by simpa using Reads.enter (hread.append (.exit .nil)), hclosed, hin⟩
  obtain ⟨ts, us, content, hts, hus, hin, ht⟩ := exists_isIn h hs hcontent hw hm
  exact ⟨ts, _, hts, ht, us, content, hus, hin, rfl⟩

theorem readable_existsRow (hq : s.quote = .plain → free) (negated : Bool) (q : Query) :
    (Expr.existsRow negated q).Readable s a free := by
  cases negated with
  | false =>
    refine .of_single (k := 7) rfl (by decide) fun row steps hw hm => ?_
    have hopening : Token.ofText "EXISTS (" = [.existsRow] :=
      Token.ofText_of_mem (by simp [Token.wordings])
    obtain ⟨content, hread, hclosed, hin⟩ := exists_enclosed hq hw
    rw [if_neg Bool.false_ne_true, hopening] at hread
    exact ⟨_, _, hread, .existsRow hclosed, _, hin, rfl⟩
  | true =>
    refine .of_single (k := 3) rfl (by decide) fun row steps hw hm => ?_
    have hopening : Token.ofText "NOT EXISTS (" = [.not, .existsRow] :=
      Token.ofText_of_mem (by simp [Token.wordings])
    obtain ⟨content, hread, hclosed, hin⟩ := exists_enclosed hq hw
    rw [if_pos rfl, hopening] at hread
    exact ⟨_, _, hread, .not ((Derives.existsRow hclosed).weaken (by decide)), _, hin, rfl⟩

theorem readable_subquery (hq : s.quote = .plain → free) (q : Query) :
    (Expr.subquery q).Readable s a free := by
  refine .of_single (k := 7) rfl (by decide) fun row steps hw hm => ?_
  have hopening : Token.ofText "(" = [.opening] :=
    Token.ofText_of_mem (by simp [Token.wordings])
  obtain ⟨content, hread, hclosed, hin⟩ := exists_enclosed hq hw
  rw [hopening] at hread
  exact ⟨_, _, hread, .query hclosed, _, hin, rfl⟩

/-- An expression between brackets. If it is not sturdy, its brackets pair up still. -/
theorem exists_item (hq : s.quote = .plain → free) (h : e.sturdy = true → e.Readable s a free)
    (hw : Written s.quote a row (e.draft s) steps) (hm : Complete steps) :
    ∃ item, Reads free steps item ∧ e.ItemAs s a free (e.Terms s a free) item := by
  cases hsturdy : e.sturdy with
  | true =>
    obtain ⟨ts, us, hts, hspells, hterms⟩ := h hsturdy row steps hw hm
    exact ⟨ts, hts, hspells.derives.closed, ⟨row, steps, hw, hts⟩,
      fun _ => ⟨us, hterms, hspells.derives.iff_eq⟩⟩
  | false =>
    obtain ⟨ts, hts, hclosed, -⟩ := e.framed_draft.readsClosed hw
    exact ⟨ts, hts.mono hq, hclosed, ⟨row, steps, hw, hts.mono hq⟩, by simp [hsturdy]⟩

/-- The items of a list, each read by itself. -/
theorem exists_items (hq : s.quote = .plain → free)
    (h : ∀ e ∈ es, e.sturdy = true → e.Readable s a free) {pieces : List (List Step)}
    (hw : List.Forall₂ (Written s.quote a row) (es.map (·.draft s)) pieces)
    (hm : ∀ piece ∈ pieces, Complete piece) :
    ∃ items, List.Forall₂ (Reads free) pieces items ∧ Expr.Items s a free es items ∧
      ∀ item ∈ items, Closed .clause item := by
  induction es generalizing pieces with
  | nil =>
    cases hw
    exact ⟨[], .nil, rfl, by simp⟩
  | cons e es ih =>
    obtain _ | ⟨hfirst, hrest⟩ := hw
    rw [List.forall_mem_cons] at hm h
    obtain ⟨items, hitems, hitems', hclosed⟩ := ih h.2 hrest hm.2
    obtain ⟨item, hitem, hitem'⟩ := exists_item hq h.1 hfirst hm.1
    have hclause : Closed .clause item := hitem'.1.widen fun _ => Place.clause_admits
    exact ⟨item :: items, .cons hitem hitems, ⟨item, items, rfl, hitem', hitems'⟩,
      List.forall_mem_cons.2 ⟨hclause, hclosed⟩⟩

/-- A list with commas between. -/
theorem exists_commas (hq : s.quote = .plain → free)
    (h : ∀ e ∈ es, e.sturdy = true → e.Readable s a free)
    (hw : Written s.quote a row (commas .other (Expr.draftEach s es)) steps) (hm : Complete steps) :
    ∃ items, Reads free steps (List.intercalate [.comma] items) ∧
      Closed .clause (List.intercalate [.comma] items) ∧ Expr.Items s a free es items := by
  rw [Expr.draftEach_eq_map] at hw
  obtain ⟨pieces, hpieces, rfl⟩ := hw.intercalate Written.delimiter
  obtain ⟨items, hread, hitems, hclosed⟩ := exists_items hq h hpieces (complete_of_intercalate hm)
  have hcomma : Reads free [.delimiter "," .other] [.comma] := .delimiter "," .other .nil
  exact ⟨items, .intercalate hcomma hread, .intercalate (.token rfl rfl) hclosed, hitems⟩

theorem readable_inList (hq : s.quote = .plain → free) {list : List Expr}
    (h : list ≠ [] → e.Readable s a free ∧ 4 ≤ e.operandStrength)
    (hlist : ∀ e ∈ list, e.sturdy = true → e.Readable s a free) :
    (Expr.inList e list).Readable s a free := by
  refine .of_single (k := 4) rfl (by decide) fun row steps hw hm => ?_
  simp only [Expr.draft, membership] at hw
  split at hw
  · next hempty =>
    obtain rfl : list = [] := by simpa [Expr.draftEach_eq_map] using hempty
    obtain rfl := hw.text
    exact ⟨_, _, .falsity, Derives.truth false, .inl ⟨rfl, rfl⟩⟩
  · next hempty =>
    have hne : list ≠ [] := by simpa [Expr.draftEach_eq_map] using hempty
    have hcontent : ∀ steps, Written s.quote a row (commas .other (Expr.draftEach s list)) steps →
        Complete steps → ∃ content p, Reads free steps content ∧ Closed p content ∧
          ∃ items, Expr.Items s a free list items ∧ content = List.intercalate [.comma] items := by
      intro steps hw hm
      obtain ⟨items, hread, hclosed, hitems⟩ := exists_commas hq hlist hw hm
      exact ⟨_, _, hread, hclosed, items, hitems, rfl⟩
    rw [List.append_assoc] at hw
    obtain ⟨ts, us, _, hts, hus, ⟨items, hitems, rfl⟩, ht⟩ :=
      exists_isIn (h hne).1 (h hne).2 hcontent hw hm
    exact ⟨ts, _, hts, ht, .inr ⟨by simpa using hne, us, items, hus, hitems, rfl⟩⟩

theorem readable_call (hq : s.quote = .plain → free) {name : String}
    (hname : ¬free → Token.ofText (name ++ "(") = [.call name])
    (h : ∀ e ∈ es, e.sturdy = true → e.Readable s a free) :
    (Expr.call name es).Readable s a free := by
  refine .of_single (k := 7) rfl (by decide) fun row steps hw hm => ?_
  obtain ⟨inner, hinner, rfl⟩ := hw.bracket
  obtain ⟨items, hread, hclosed, hitems⟩ := exists_commas hq h hinner (by simp_all)
  have hopening : Reads free [.token (name ++ "(")] [.call name] := by
    by_cases hfree : free
    · exact .function name hfree .nil
    · exact .of_text (hname hfree)
  have hclosing : Token.ofText ")" = [.closing] :=
    Token.ofText_of_mem (by simp [Token.wordings])
  exact ⟨_, _, (hopening.append hread).append (.of_text hclosing), .call name hclosed, items,
    hitems, rfl⟩

theorem readable_count (hq : s.quote = .plain → free) {distinct : Bool}
    {argument filter : Option Expr}
    (hargument : ∀ e ∈ argument, e.sturdy = true → e.Readable s a free)
    (hfilter : ∀ e ∈ filter, e.sturdy = true → e.Readable s a free) :
    (Expr.count distinct argument filter).Readable s a free := by
  refine .of_single (k := 7) rfl (by decide) fun row steps hw hm => ?_
  obtain ⟨ats, fts, hread, hats, hfts⟩ := Expr.exists_reads_count
    (R := fun e ts => e.ItemAs s a free (e.Terms s a free) ts) hw fun e he part hpart hw => by
      have hcomplete : Complete part := fun step hstep => hm step (hpart step hstep)
      exact exists_item hq (he.elim (hargument e) (hfilter e)) hw hcomplete
  have hclosed {e : Option Expr} {item : Option (List Token)}
      (h : Option.Rel (fun e ts => e.ItemAs s a free (e.Terms s a free) ts) e item) :
      ∀ ts ∈ item, Closed .term ts := by
    rintro ts ⟨⟩
    cases h with
    | some hitem => exact hitem.1
  exact ⟨_, _, hread, Count.derives_form s (hclosed hats) (hclosed hfts), ats, fts,
    Expr.optionItem_iff.2 hats, Expr.optionItem_iff.2 hfts, rfl⟩

/-! ### Collections -/

theorem reads_cell (r : RowAt) (column : Nat) (hm : (RowAt.step (some r) column).missing? = none) :
    Reads free [.gap, RowAt.step (some r) column, .settle false] [.leaf (r.leaf column)] := by
  cases hcell : r.cells[column]? with
  | none => simp [RowAt.step, hcell, Step.missing?] at hm
  | some cell =>
    cases cell with
    | inline t =>
      simp only [RowAt.step, RowAt.leaf, hcell]
      exact .supplied t false .nil
    | value v =>
      simp only [RowAt.step, RowAt.leaf, hcell]
      exact .marker _ false .nil

/-- Nothing is missing in a row of a repetition in which nothing is. -/
theorem complete_row {rows : List (List Cell)} {between : String}
    {inner : Nat → List Cell → List Step}
    (hm : Complete (.gap :: List.intercalate [.write between]
      (rows.mapIdx fun index cells => .fresh :: inner index cells) ++ [.settle false]))
    {index : Nat} {cells : List Cell} (hrow : rows[index]? = some cells) :
    Complete (inner index cells) := by
  simp only [complete_append, complete_cons] at hm
  have hpiece := complete_of_intercalate hm.1.2 (.fresh :: inner index cells) (by
    obtain ⟨hi, rfl⟩ := List.getElem?_eq_some_iff.1 hrow
    exact List.mem_mapIdx.2 ⟨index, hi, rfl⟩)
  exact (complete_cons.1 hpiece).2

theorem forall₂_mapIdx {α β γ : Type} {R : β → γ → Prop} {l : List α} {f : Nat → α → β}
    {g : Nat → α → γ} (h : ∀ i x, l[i]? = some x → R (f i x) (g i x)) :
    List.Forall₂ R (l.mapIdx f) (l.mapIdx g) := by
  induction l generalizing f g with
  | nil => exact .nil
  | cons x l ih =>
    simp only [List.mapIdx_cons]
    exact .cons (h 0 x rfl) (ih fun i y hi => h (i + 1) y (by simpa using hi))

theorem flatten_mapIdx {α β : Type} (l : List α) (f : Nat → α → β) :
    (l.mapIdx fun i x => [f i x]).flatten = l.mapIdx f := by
  induction l generalizing f with
  | nil => rfl
  | cons x l ih => simp [List.mapIdx_cons, ih]

theorem closed_collectionTokens (key : Key) : Closed .query (collectionTokens s a key) := by
  unfold collectionTokens
  split
  · refine .cons rfl rfl (.cons rfl rfl (.append ?_ (.token rfl rfl)))
    split
    · exact .token rfl rfl
    · exact .nil
  · refine .intercalate (.token rfl rfl) fun ts hts => ?_
    obtain ⟨i, hi, rfl⟩ := List.mem_mapIdx.1 hts
    exact .token rfl rfl

theorem exists_rows {key : Key}
    (hw : Written s.quote a row [.each key [.cell 0] (.text "SELECT NULL" :: noRows s) ", "] steps)
    (hm : Complete steps) : Reads free steps (collectionTokens s a key) := by
  unfold collectionTokens
  split
  · next hrows =>
    obtain ⟨inner, hinner, rfl⟩ := hw.each_nil hrows
    obtain ⟨first, rest, hfirst, hrest, rfl⟩ := hinner.cons
    obtain rfl := hfirst.text
    have hselect : Token.ofText "SELECT NULL" = [.select, .leaf (.word "NULL")] :=
      Token.ofText_of_mem (by simp [Token.wordings])
    have hwhere : Token.ofText "WHERE 1 = 0" = [.leaf (.word "WHERE 1 = 0")] := by
      simp [Token.ofText, Token.wordings, List.lookup_cons, Token.ofOther]
    have hdual : Token.ofText "FROM DUAL" = [.leaf (.word "FROM DUAL")] := by
      simp [Token.ofText, Token.wordings, List.lookup_cons, Token.ofOther]
    obtain ⟨before, last, hbefore, hlast, rfl⟩ := hrest.append
    obtain rfl := hlast.text
    have hbefore' : Reads free before
        (if s.features.selectWithoutFromNeedsDual then [.leaf (.word "FROM DUAL")] else []) := by
      split at hbefore
      · next hneeds =>
        rw [if_pos hneeds]
        obtain rfl := hbefore.text
        exact .of_text hdual
      · next hneeds =>
        rw [if_neg hneeds]
        obtain rfl := hbefore.nil
        exact .nil
    have hfirst' : Reads free [.token "SELECT NULL"] _ := .of_text hselect
    have hall := hfirst'.append (hbefore'.append (.of_text hwhere))
    simpa using Reads.start (hall.append (.settle false .nil))
  · next hrows =>
    obtain ⟨inner, hinner, rfl⟩ := hw.each_rows hrows
    refine .rows hrows fun i cells hrow => ?_
    have hcomplete := complete_row hm hrow
    obtain hcell := (hinner i cells).cell
    rw [hcell] at hcomplete ⊢
    exact reads_cell _ 0 (by simp_all)

theorem readable_listTest {key : Key} (h : ∀ e ∈ es, e.Readable s a free ∧ 4 ≤ e.operandStrength) :
    (Expr.inCollection .list es key).Readable s a free := by
  refine .of_single (k := 4) rfl (by decide) fun row steps hw hm => ?_
  simp only [Expr.draft, Expr.draftEach_eq_map] at hw
  match es, h, hw with
  | [], _, hw => exact hw.fault.elim
  | _ :: _ :: _, _, hw => exact hw.fault.elim
  | [e], h, hw =>
    have he := h e (by simp)
    have hcontent : ∀ steps,
        Written s.quote a row [.each key [.cell 0] (.text "SELECT NULL" :: noRows s) ", "] steps →
        Complete steps → ∃ content p, Reads free steps content ∧ Closed p content ∧
          content = collectionTokens s a key :=
      fun steps hw hm => ⟨_, _, exists_rows hw hm, closed_collectionTokens key, rfl⟩
    obtain ⟨ts, us, _, hts, hus, rfl, ht⟩ := exists_isIn he.1 he.2 hcontent hw hm
    exact ⟨ts, _, hts, ht, us, ⟨us, [], hus, rfl, rfl⟩, rfl⟩

/-- Equalities with cells of a row. Which cells is left open, since the columns that
are left after the first one are not counted from zero. -/
theorem exists_equalities {r : RowAt} {column : Nat → Nat} {pieces : List (List Step)}
    (h : ∀ e ∈ es, e.Readable s a free ∧ 4 ≤ e.operandStrength)
    (hw : List.Forall₂ (Written s.quote a (some r))
      (es.mapIdx fun i e => operand e (e.draft s) ++ [.text "=", .cell (column i)]) pieces)
    (hm : ∀ piece ∈ pieces, Complete piece) :
    ∃ tss uss, List.Forall₂ (Reads free) pieces tss ∧ Expr.TermsEach s a free es uss ∧
      List.Forall₂ (Derives 3) tss (uss.mapIdx fun i us =>
        .connective (.binary .eq) (.any us) (.leaf (r.leaf (column i)))) := by
  induction es generalizing pieces column with
  | nil =>
    cases hw
    exact ⟨[], [], .nil, rfl, .nil⟩
  | cons e es ih =>
    rw [List.mapIdx_cons] at hw
    obtain _ | ⟨hfirst, hrest⟩ := hw
    rw [List.forall_mem_cons] at hm h
    obtain ⟨tss, uss, htss, heach, hderives⟩ := ih h.2 hrest hm.2
    obtain ⟨left, right, hleft, hright, rfl⟩ := hfirst.append
    obtain ⟨equals, cell, hequals, hcell, rfl⟩ := hright.cons
    obtain rfl := hequals.text
    obtain rfl := hcell.cell
    simp only [complete_append, complete_cons] at hm
    obtain ⟨ts, us, hts, hus, ht⟩ := h.1.1.operand hleft hm.1.1
    have hword : Token.ofText "=" = [.connective (.binary .eq)] :=
      Token.ofText_of_mem (by simp [Token.wordings])
    have hcell : Reads free _ [.leaf (r.leaf (column 0))] := reads_cell r (column 0) hm.1.2.2.2.1
    have htest : Derives 4 (ts ++ .connective (.binary .eq) :: [.leaf (r.leaf (column 0))])
        (.connective (.binary .eq) (.any us) (.leaf (r.leaf (column 0)))) :=
      .connective (c := .binary .eq) (ht.weaken h.1.2) ((Derives.leaf _).weaken (by decide))
    refine ⟨_ :: tss, us :: uss, .cons (hts.append ((Reads.of_text hword).append hcell)) htss,
      ⟨us, uss, hus, heach, rfl⟩, ?_⟩
    rw [List.mapIdx_cons]
    exact .cons (htest.weaken (by decide)) hderives

/-- One row: a conjunction of the equalities. -/
theorem exists_conjunction {r : RowAt} (hes : es ≠ [])
    (h : ∀ e ∈ es, e.Readable s a free ∧ 4 ≤ e.operandStrength)
    (hw : Written s.quote a (some r) (words "AND" (es.mapIdx fun i e =>
      operand e (e.draft s) ++ [.text "=", .cell i])) steps) (hm : Complete steps) :
    ∃ ts uss, Reads free steps ts ∧ Expr.TermsEach s a free es uss ∧
      Derives 2 ts (.all (uss.mapIdx fun column us =>
        .connective (.binary .eq) (.any us) (.leaf (r.leaf column)))) := by
  obtain ⟨pieces, hpieces, rfl⟩ := hw.intercalate Written.text
  obtain ⟨tss, uss, htss, heach, hderives⟩ :=
    exists_equalities h hpieces (complete_of_intercalate hm)
  have hlength : tss.length = es.length := by
    rw [← htss.length_eq, ← hpieces.length_eq, List.length_mapIdx]
  have hne : tss ≠ [] := by
    rintro rfl
    exact hes (List.length_eq_zero_iff.1 hlength.symm)
  exact ⟨_, uss, .conjunctions htss, heach, .all hne hderives⟩

theorem draft_disjunctionTest (hes : es ≠ []) (key : Key) :
    (Expr.inCollection .disjunction es key).draft s =
      [.each key (words "AND" (es.mapIdx fun i e =>
        operand e (e.draft s) ++ [.text "=", .cell i])) [.text "1 = 0"] " OR "] := by
  cases es with
  | nil => exact absurd rfl hes
  | cons e es =>
    simp only [Expr.draft, collectionTest]
    rw [Expr.draftEach_eq_map, List.zipWith_map_right, List.zipWith_self, List.mapIdx_eq_iff.2]
    intro i
    rw [List.getElem?_mapIdx, List.getElem?_map, Option.map_map]
    rfl

theorem readable_disjunctionTest {key : Key}
    (h : ∀ e ∈ es, e.Readable s a free ∧ 4 ≤ e.operandStrength) :
    (Expr.inCollection .disjunction es key).Readable s a free := by
  intro row steps hw hm
  by_cases hes : es = []
  · subst hes
    exact hw.fault.elim
  · rw [draft_disjunctionTest hes] at hw
    by_cases hrows : a.rows key = []
    · obtain ⟨inner, hinner, rfl⟩ := hw.each_nil hrows
      obtain rfl := hinner.text
      have hread : Reads free [.token "1 = 0", .settle false] (Token.comparison 1 0) := by
        simpa using Reads.falsity.append (.settle false .nil)
      exact ⟨_, _, .start hread, .falsity, .inl ⟨hrows, rfl⟩⟩
    · obtain ⟨inner, hinner, rfl⟩ := hw.each_rows hrows
      have hrow (index : Nat) (cells : List Cell) (hcells : (a.rows key)[index]? = some cells) :=
        exists_conjunction hes h (hinner index cells) (complete_row hm hcells)
      choose! tokens tss hread heach hderives using hrow
      have hspells : List.Forall₂ (Spells 1) ((a.rows key).mapIdx tokens)
          ((a.rows key).mapIdx fun index cells =>
            [Tree.all ((tss index cells).mapIdx fun column us =>
              .connective (.binary .eq) (.any us)
                (.leaf (RowAt.leaf ⟨key, index, cells⟩ column)))]) :=
        forall₂_mapIdx fun index cells hcells =>
          (Spells.one (by decide) (hderives index cells hcells)).weaken (by decide)
      have hflat := Spells.intercalate (by simpa using hrows) hspells
      rw [flatten_mapIdx] at hflat
      exact ⟨_, _, .rows hrows hread, hflat, .inr ⟨hrows, tss, heach, rfl⟩⟩

/-! ### All expressions -/

theorem allSturdy_iff {k : Nat} :
    Expr.allSturdy k es = true ↔ ∀ e ∈ es, e.sturdy = true ∧ k ≤ e.operandStrength := by
  induction es with
  | nil => simp [Expr.allSturdy]
  | cons e es ih => simp [Expr.allSturdy, ih]

end Expr

mutual

theorem Expr.readable (hq : s.quote = .plain → free) :
    ∀ e : Expr, e.sturdy = true → (¬free → e.legible = true) → e.Readable s a free
  | .value v, _, _ => Expr.readable_value v
  | .column t name, _, _ => Expr.readable_column hq t name
  | .param p, _, _ => Expr.readable_param p
  | .and es, hs, hl =>
    Expr.readable_and fun e he =>
      Expr.readableEach hq es hl e he (Expr.allSturdy_iff.1 hs e he).1
  | .or es, hs, hl =>
    Expr.readable_or fun e he =>
      Expr.readableEach hq es hl e he (Expr.allSturdy_iff.1 hs e he).1
  | .not e, hs, hl => Expr.readable_not (e.readable hq hs hl)
  | .binary op lhs rhs, hs, hl => by
    simp only [Expr.sturdy, Expr.legible, Bool.and_eq_true, decide_eq_true_eq] at hs hl
    exact Expr.readable_binary (lhs.readable hq hs.1.1.1 fun h => (hl h).1)
      (rhs.readable hq hs.1.1.2 fun h => (hl h).2) hs.1.2 hs.2
  | .isNull _ e, hs, hl => by
    simp only [Expr.sturdy, Bool.and_eq_true, decide_eq_true_eq] at hs
    exact Expr.readable_isNull (e.readable hq hs.1 hl) hs.2
  | .like _ e pattern, hs, hl => by
    simp only [Expr.sturdy, Expr.legible, Bool.and_eq_true, decide_eq_true_eq] at hs hl
    exact Expr.readable_like (e.readable hq hs.1.1.1 fun h => (hl h).1)
      (pattern.readable hq hs.1.1.2 fun h => (hl h).2) hs.1.2 hs.2
  | .inList e list, hs, hl => by
    simp only [Expr.sturdy, Expr.legible, Bool.and_eq_true, Bool.or_eq_true, decide_eq_true_eq,
      List.isEmpty_iff] at hs hl
    refine Expr.readable_inList hq (fun hne => ?_) (Expr.readableEach hq list fun h => (hl h).2)
    have he := hs.resolve_left hne
    exact ⟨e.readable hq he.1 fun h => (hl h).1, he.2⟩
  | .inQuery e q, hs, hl => by
    simp only [Expr.sturdy, Bool.and_eq_true, decide_eq_true_eq] at hs
    exact Expr.readable_inQuery hq (e.readable hq hs.1 hl) hs.2
  | .inCollection .list es _, hs, hl =>
    Expr.readable_listTest fun e he =>
      have hse := Expr.allSturdy_iff.1 hs e he
      ⟨Expr.readableEach hq es hl e he hse.1, hse.2⟩
  | .inCollection .disjunction es _, hs, hl =>
    Expr.readable_disjunctionTest fun e he =>
      have hse := Expr.allSturdy_iff.1 hs e he
      ⟨Expr.readableEach hq es hl e he hse.1, hse.2⟩
  | .existsRow negated q, _, _ => Expr.readable_existsRow hq negated q
  | .call name arguments, _, hl => by
    simp only [Expr.legible, Bool.and_eq_true, beq_iff_eq] at hl
    exact Expr.readable_call hq (fun h => (hl h).1)
      (Expr.readableEach hq arguments fun h => (hl h).2)
  | .count _ argument filter, _, hl => by
    simp only [Expr.legible, Bool.and_eq_true] at hl
    exact Expr.readable_count hq (Expr.readableOption hq argument fun h => (hl h).1)
      (Expr.readableOption hq filter fun h => (hl h).2)
  | .subquery q, _, _ => Expr.readable_subquery hq q
  | .choice _ main alternative, hs, hl => by
    simp only [Expr.sturdy, Expr.legible, Bool.and_eq_true] at hs hl
    exact Expr.readable_choice (main.readable hq hs.1 fun h => (hl h).1)
      (alternative.readable hq hs.2 fun h => (hl h).2)
  | .inline _, hs, _ | .typeId _, hs, _ | .record _, hs, _ => nomatch hs

theorem Expr.readableEach (hq : s.quote = .plain → free) :
    ∀ es : List Expr, (¬free → Expr.allLegible es = true) →
      ∀ e ∈ es, e.sturdy = true → e.Readable s a free
  | [], _, _, h => nomatch h
  | e :: es, hl, e', h => by
    simp only [Expr.allLegible, Bool.and_eq_true] at hl
    have hfirst := e.readable hq
    have hrest := Expr.readableEach hq es fun hf => (hl hf).2
    rcases List.mem_cons.1 h with rfl | h
    · exact fun hs => hfirst hs fun hf => (hl hf).1
    · exact hrest e' h

theorem Expr.readableOption (hq : s.quote = .plain → free) :
    ∀ e : Option Expr, (¬free → Expr.optionLegible e = true) →
      ∀ x ∈ e, x.sturdy = true → x.Readable s a free
  | none, _, _, h => nomatch h
  | some e, hl, _, rfl => fun hs => e.readable hq hs hl

end

end Readable

end PreparedSql
