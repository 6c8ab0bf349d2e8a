import PreparedSql.Proofs.Reading.CountForms

/-!
# What an expression should be read as

`Expr.Terms` says what a reader should make of an expression. It gives the terms of a
disjunction: a disjunction inside a disjunction is not parenthesised, so its terms join
those around it. All other operands are told apart. Texts and type numbers that come with
the arguments and records of fields are left out: they are no operands of conditions.

Not every expression keeps its operands together. Parentheses are put around operands
that are conjunctions, disjunctions or binary operations; a negation or a test is left
bare, and the operator outside may be the stronger one. `Expr.sturdy` says that this
does not happen.
-/

namespace PreparedSql

open Draft

/-! ## Trees of conjunctions and disjunctions -/

namespace Tree

/-- The comparison that stands for a truth value. -/
def truth (b : Bool) : Tree :=
  .connective (.binary .eq) (.leaf (.number 1)) (.leaf (.number (if b then 1 else 0)))

/-- Terms with a connective between, grouped to the left. -/
def chain (c : Connective) (t : Tree) (ts : List Tree) : Tree := ts.foldl (.connective c) t

/-- A conjunction without terms is true. -/
def all : List Tree → Tree
  | [] => truth true
  | t :: ts => chain .and t ts

/-- A disjunction without terms is false. -/
def any : List Tree → Tree
  | [] => truth false
  | t :: ts => chain .or t ts

end Tree

/-- `Spells k ts us`: the tokens `ts` are a disjunction of the terms `us`. If `k` is
the level of a conjunction or a tighter one, there is a single term, of that level. -/
inductive Spells : Nat → List Token → List Tree → Prop where
  | one {k ts t} : 2 ≤ k → Derives k ts t → Spells k ts [t]
  | append {ts ts' us us'} : Spells 1 ts us → Spells 1 ts' us' →
      Spells 1 (ts ++ .connective .or :: ts') (us ++ us')
  | weaken {k l ts us} : Spells k ts us → l ≤ k → Spells l ts us

namespace Spells

variable {k : Nat} {ts vs : List Token} {us : List Tree} {v : Tree}

theorem ne_nil (h : Spells k ts us) : us ≠ [] := by
  induction h with
  | one _ _ => exact List.cons_ne_nil _ _
  | append _ _ first _ =>
    intro hnil
    exact first (List.append_eq_nil_iff.1 hnil).1
  | weaken _ _ ih => exact ih

/-- The terms join a disjunction that is read before them. -/
theorem extend (h : Spells k ts us) (hv : Derives 1 vs v) :
    Derives 1 (vs ++ .connective .or :: ts) (Tree.chain .or v us) := by
  induction h generalizing vs v with
  | one hk ht => exact .connective (c := .or) hv (ht.weaken hk)
  | append _ _ first second =>
    have hboth := second (first hv)
    simpa [Tree.chain] using hboth
  | weaken _ _ ih => exact ih hv

theorem derives (h : Spells k ts us) : Derives 1 ts (.any us) := by
  induction h with
  | one hk ht => exact ht.weaken (Nat.le_of_succ_le hk)
  | @append ts ts' us us' hfirst hsecond ih _ =>
    cases us with
    | nil => exact absurd rfl hfirst.ne_nil
    | cons u us => simpa [Tree.any, Tree.chain] using hsecond.extend ih
  | weaken _ _ ih => exact ih

/-- At the level of a conjunction or a tighter one, the terms are one. -/
theorem derives_of_le (h : Spells k ts us) (hk : 2 ≤ k) : Derives k ts (.any us) := by
  induction h with
  | one _ ht => exact ht
  | append _ _ _ _ => omega
  | weaken _ hl ih => exact (ih (Nat.le_trans hk hl)).weaken hl

/-- Several disjunctions, one after the other. -/
theorem intercalate {tss : List (List Token)} {uss : List (List Tree)} (hne : tss ≠ [])
    (h : List.Forall₂ (Spells 1) tss uss) :
    Spells 1 (List.intercalate [.connective .or] tss) uss.flatten := by
  induction h with
  | nil => exact absurd rfl hne
  | cons hfirst hrest ih =>
    cases hrest with
    | nil => simpa using hfirst
    | cons _ _ =>
      rw [List.intercalate_cons_cons, List.flatten_cons]
      simpa using hfirst.append (ih (List.cons_ne_nil _ _))

end Spells

/-- Terms of a conjunction, grouped to the left. -/
theorem Derives.conjunction {vs : List Token} {v : Tree} {tss : List (List Token)} {us : List Tree}
    (hv : Derives 2 vs v) (hne : tss ≠ []) (h : List.Forall₂ (Derives 3) tss us) :
    Derives 2 (vs ++ .connective .and :: List.intercalate [.connective .and] tss)
      (Tree.chain .and v us) := by
  induction h generalizing vs v with
  | nil => exact absurd rfl hne
  | cons hfirst hrest ih =>
    have hboth : Derives 2 (_ ++ .connective .and :: _) (.connective .and _ _) :=
      .connective (c := .and) hv hfirst
    cases hrest with
    | nil => simpa [Tree.chain] using hboth
    | cons _ _ =>
      rw [List.intercalate_cons_cons]
      simpa [Tree.chain] using ih hboth (List.cons_ne_nil _ _)

theorem Derives.all {tss : List (List Token)} {us : List Tree} (hne : tss ≠ [])
    (h : List.Forall₂ (Derives 3) tss us) :
    Derives 2 (List.intercalate [.connective .and] tss) (.all us) := by
  cases h with
  | nil => exact absurd rfl hne
  | cons hfirst hrest =>
    have hfirst' := hfirst.weaken (by decide : 2 ≤ 3)
    cases hrest with
    | nil => simpa [Tree.all, Tree.chain] using hfirst'
    | cons hnext hrest =>
      rw [List.intercalate_cons_cons]
      simpa [Tree.all] using hfirst'.conjunction (List.cons_ne_nil _ _) (.cons hnext hrest)

theorem Derives.truth (b : Bool) :
    Derives 4 (Token.comparison 1 (if b then 1 else 0)) (.truth b) :=
  .connective (c := .binary .eq) ((Derives.leaf _).weaken (by decide))
    ((Derives.leaf _).weaken (by decide))

/-- Outside of brackets, an expression shows no comma. -/
theorem Derives.closed {k : Nat} {ts : List Token} {t : Tree} (h : Derives k ts t) :
    Closed .term ts := by
  induction h with
  | weaken _ _ ih => exact ih
  | connective _ _ left right => exact left.append (.cons rfl rfl right)
  | not _ ih => exact .cons rfl rfl ih
  | isNull negated _ ih => exact ih.append (.token rfl rfl)
  | isIn _ hcontent ih => simpa using ih.append (.bracket rfl hcontent)
  | leaf l => exact .token rfl rfl
  | existsRow hcontent => exact .bracket rfl hcontent
  | call name hcontent => exact .bracket rfl hcontent
  | filtered name hcontent hfilter =>
    exact (Closed.bracket rfl hcontent).append (.bracket rfl hfilter)
  | query hcontent => exact .bracket rfl hcontent
  | parens _ ih => exact .bracket rfl ih

/-! ## What an expression should be read as -/

/-- The strength that the written expression has, whichever branches are taken. -/
def Expr.strength : Expr → Nat
  | .or _ | .inCollection .disjunction _ _ => 1
  | .and _ => 2
  | .not _ | .existsRow true _ => 3
  | .isNull _ _ | .like _ _ _ | .inList _ _ | .inQuery _ _ | .inCollection .list _ _ => 4
  | .binary op _ _ => op.strength
  | .choice _ main alternative => min main.strength alternative.strength
  | _ => 7

/-- The strength as an operand, where some expressions are parenthesised. -/
def Expr.operandStrength (e : Expr) : Nat := if e.isCompound then 7 else e.strength

mutual

/-- Whether no operator takes a part of an operand for itself. The parts that are
enclosed in brackets are not looked into. Texts, type numbers and records have no reading. -/
def Expr.sturdy : Expr → Bool
  | .value _ | .column _ _ | .param _ | .count _ _ _ | .call _ _ | .subquery _
  | .existsRow _ _ => true
  | .inline _ | .typeId _ | .record _ => false
  | .and es | .or es => Expr.allSturdy 0 es
  | .not e => e.sturdy
  | .binary op lhs rhs =>
    lhs.sturdy && rhs.sturdy && (op.strength ≤ lhs.operandStrength : Bool) &&
      (op.strength < rhs.operandStrength : Bool)
  | .isNull _ e => e.sturdy && (4 ≤ e.operandStrength : Bool)
  | .like _ e pattern =>
    e.sturdy && pattern.sturdy && (4 ≤ e.operandStrength : Bool) &&
      (4 < pattern.operandStrength : Bool)
  | .inList e list => list.isEmpty || e.sturdy && (4 ≤ e.operandStrength : Bool)
  | .inQuery e _ => e.sturdy && (4 ≤ e.operandStrength : Bool)
  | .inCollection _ es _ => Expr.allSturdy 4 es
  | .choice _ main alternative => main.sturdy && alternative.sturdy

/-- Whether all are sturdy, and of some strength as operands. -/
def Expr.allSturdy (k : Nat) : List Expr → Bool
  | [] => true
  | e :: es => e.sturdy && (k ≤ e.operandStrength : Bool) && Expr.allSturdy k es

end

mutual

/-- Whether functions are told apart from the words of the language. -/
def Expr.legible : Expr → Bool
  | .and es | .or es | .inCollection _ es _ => Expr.allLegible es
  | .not e | .isNull _ e | .inQuery e _ => e.legible
  | .binary _ lhs rhs => lhs.legible && rhs.legible
  | .like _ e pattern => e.legible && pattern.legible
  | .inList e list => e.legible && Expr.allLegible list
  | .call name arguments =>
    (Token.ofText (name ++ "(") == [.call name]) && Expr.allLegible arguments
  | .count _ argument filter => Expr.optionLegible argument && Expr.optionLegible filter
  | .choice _ main alternative => main.legible && alternative.legible
  | _ => true

def Expr.allLegible : List Expr → Bool
  | [] => true
  | e :: es => e.legible && Expr.allLegible es

def Expr.optionLegible : Option Expr → Bool
  | none => true
  | some e => e.legible

end

/-- Comparing with `NULL` is written as a test for it. -/
def Expr.nullTest? (op : BinaryOp) (rhs : Expr) : Option Bool :=
  if rhs.isNullValue then
    match op with
    | .eq => some false
    | .ne => some true
    | _ => none
  else none

/-- The operand that a cell is read as. -/
def RowAt.leaf (r : RowAt) (column : Nat) : Leaf :=
  match r.cells[column]? with
  | some (.inline s) => .supplied s
  | _ => .slot (.cell r.collection r.index column)

section Terms

variable (s : Spelling) (a : Arguments) (free : Prop)

/-- Tokens that are read in a part of a statement. -/
def ReadIn (ds : List Draft) (ts : List Token) : Prop :=
  ∃ row steps, Written s.quote a row ds steps ∧ Reads free steps ts

/-- The tokens of an expression that stands between brackets. It shows no comma outside of further
brackets, and if it is sturdy, it is grouped as it should be. -/
def Expr.ItemAs (e : Expr) (terms : List Tree → Prop) (item : List Token) : Prop :=
  Closed .term item ∧ ReadIn s a free (e.draft s) item ∧
    (e.sturdy = true → ∃ ts, terms ts ∧ ∀ t, Derives 1 item t ↔ t = .any ts)

/-- What a test against a collection shows between its brackets. -/
def collectionTokens (key : Key) : List Token :=
  if a.rows key = [] then
    .select :: .leaf (.word "NULL") ::
      ((if s.features.selectWithoutFromNeedsDual then [.leaf (.word "FROM DUAL")] else []) ++
        [.leaf (.word "WHERE 1 = 0")])
  else
    List.intercalate [.comma]
      ((a.rows key).mapIdx fun index cells => [.leaf (RowAt.leaf ⟨key, index, cells⟩ 0)])

mutual

/-- The terms of the disjunction that an expression should be read as; most
expressions are a single term. -/
def Expr.Terms : Expr → List Tree → Prop
  | .value v, ts => ∃ w, v.literal s.dialect = .ok w ∧ ts = [.leaf (.word w)]
  | .column _ name, ts =>
    ∃ w, (w = s.quote.quote name ∨ ∃ table, w = s.quote.column table name) ∧ ts = [.leaf (.word w)]
  | .param p, ts => ts = [.leaf (.slot (.param p))]
  | .and es, ts => ∃ tss, Expr.TermsEach es tss ∧ ts = [.all (tss.map .any)]
  | .or es, ts =>
    ∃ tss, Expr.TermsEach es tss ∧ ts = if es.isEmpty then [.truth false] else tss.flatten
  | .not e, ts => ∃ us, e.Terms us ∧ ts = [.not (.any us)]
  | .binary op lhs rhs, ts => ∃ us, lhs.Terms us ∧
    ((∃ negated, Expr.nullTest? op rhs = some negated ∧ ts = [.isNull negated (.any us)]) ∨
      Expr.nullTest? op rhs = none ∧
        ∃ vs, rhs.Terms vs ∧ ts = [.connective (.binary op) (.any us) (.any vs)])
  | .isNull negated e, ts => ∃ us, e.Terms us ∧ ts = [.isNull negated (.any us)]
  | .like negated e pattern, ts =>
    ∃ us vs, e.Terms us ∧ pattern.Terms vs ∧ ts = [.connective (.like negated) (.any us) (.any vs)]
  | .inList e list, ts =>
    (list.isEmpty = true ∧ ts = [.truth false]) ∨
      list.isEmpty = false ∧ ∃ us items, e.Terms us ∧ Expr.Items list items ∧
        ts = [.isIn (.any us) (List.intercalate [.comma] items)]
  | .inQuery e q, ts =>
    ∃ us content, e.Terms us ∧ ReadIn s a free (q.draft s) content ∧ ts = [.isIn (.any us) content]
  | .inCollection .list es key, ts =>
    ∃ us, Expr.TermsEach es [us] ∧ ts = [.isIn (.any us) (collectionTokens s a key)]
  | .inCollection .disjunction es key, ts =>
    (a.rows key = [] ∧ ts = [.truth false]) ∨
      a.rows key ≠ [] ∧ ∃ tss : Nat → List Cell → List (List Tree),
        (∀ index cells, (a.rows key)[index]? = some cells → Expr.TermsEach es (tss index cells)) ∧
        ts = (a.rows key).mapIdx fun index cells =>
          .all ((tss index cells).mapIdx fun column us =>
            .connective (.binary .eq) (.any us) (.leaf (RowAt.leaf ⟨key, index, cells⟩ column)))
  | .existsRow negated q, ts =>
    ∃ content, ReadIn s a free (q.draft s) content ∧
      ts = [if negated then .not (.existsRow content) else .existsRow content]
  | .call name arguments, ts =>
    ∃ items, Expr.Items arguments items ∧ ts = [.call name (List.intercalate [.comma] items)]
  | .count distinct argument filter, ts =>
    ∃ ats fts, Expr.OptionItem argument ats ∧ Expr.OptionItem filter fts ∧
      ts = [(Count.form s distinct ats fts).tree]
  | .subquery q, ts => ∃ content, ReadIn s a free (q.draft s) content ∧ ts = [.query content]
  | .choice key main alternative, ts =>
    (a.alternative key = true ∧ alternative.Terms ts) ∨ a.alternative key = false ∧ main.Terms ts
  | .inline _, _ | .typeId _, _ | .record _, _ => False

def Expr.TermsEach : List Expr → List (List Tree) → Prop
  | [], tss => tss = []
  | e :: es, tss => ∃ ts rest, e.Terms ts ∧ Expr.TermsEach es rest ∧ tss = ts :: rest

/-- The items of a list in brackets. No comma stands in an item outside of brackets,
so they are told apart. -/
def Expr.Items : List Expr → List (List Token) → Prop
  | [], items => items = []
  | e :: es, items =>
    ∃ item rest, items = item :: rest ∧ e.ItemAs s a free e.Terms item ∧ Expr.Items es rest

/-- An argument of a count or its filter, if there is one. -/
def Expr.OptionItem : Option Expr → Option (List Token) → Prop
  | none, item => item = none
  | some e, item => ∃ ts, item = some ts ∧ e.ItemAs s a free e.Terms ts

end

theorem Expr.optionItem_iff {s : Spelling} {a : Arguments} {free : Prop} {e : Option Expr}
    {item : Option (List Token)} :
    Expr.OptionItem s a free e item ↔
      Option.Rel (fun e ts => e.ItemAs s a free (e.Terms s a free) ts) e item := by
  cases e with
  | none => cases item <;> simp [Expr.OptionItem]
  | some e => cases item <;> simp [Expr.OptionItem]

end Terms

/-! ## Strength -/

theorem BinaryOp.four_le_strength (op : BinaryOp) : 4 ≤ op.strength := by
  cases op <;> decide

namespace Expr

theorem strength_pos (e : Expr) : 1 ≤ e.strength := by
  fun_induction Expr.strength e with
  | case11 op => exact Nat.le_trans (by decide) op.four_le_strength
  | case12 key main alternative hmain halternative => exact Nat.le_min.2 ⟨hmain, halternative⟩
  | _ => decide

/-- What is left bare in a conjunction is tighter than a conjunction. -/
theorem le_strength_of_not_splits {e : Expr} (h : e.splitsConjunction = false) :
    3 ≤ e.strength := by
  fun_induction Expr.strength e with
  | case1 | case2 | case3 => cases h
  | case11 op => exact Nat.le_trans (by decide) op.four_le_strength
  | case12 key main alternative hmain halternative =>
    rw [splitsConjunction, Bool.or_eq_false_iff] at h
    exact Nat.le_min.2 ⟨hmain h.1, halternative h.2⟩
  | _ => decide

theorem le_strength_of_not_compound {e : Expr} (h : e.isCompound = false) : 3 ≤ e.strength := by
  fun_induction Expr.strength e with
  | case1 | case2 | case3 | case11 => cases h
  | case12 key main alternative hmain halternative =>
    rw [isCompound, Bool.or_eq_false_iff] at h
    exact Nat.le_min.2 ⟨hmain h.1, halternative h.2⟩
  | _ => decide

end Expr

end PreparedSql
