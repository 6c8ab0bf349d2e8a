import Mathlib.Data.Multiset.Dedup
import Mathlib.Data.Multiset.UnionInter
import PreparedSql.Proofs.Reading.Grouping

/-!
# Set operations

The operands of a set operation are written one after the other, with the operator
between, and an operand that is a set operation itself is written the same way. So a
reader finds one row of `SELECT`s with operators between, and joins them from left to
right.

This is what was meant as long as every nested operand may be taken apart: for
operators such as `UNION`, joining the operands of an operand one by one comes to the
same. For others it does not, and what is read is another relation.
-/

namespace PreparedSql

/-! ## Relations -/

namespace SetOp

variable {Row : Type} [DecidableEq Row]

/-- All operators but `UNION ALL` remove duplicates. -/
def apply : SetOp → Multiset Row → Multiset Row → Multiset Row
  | .union, x, y => (x + y).dedup
  | .unionAll, x, y => x + y
  | .intersect, x, y => (x ∩ y).dedup
  | .except, x, y => (x.filter (· ∉ y)).dedup

/-- Relations joined from left to right: the first is given, the others are numbered. -/
def leftToRight (x : Multiset Row) (ρ : Nat → Multiset Row) : List SetOp → Multiset Row
  | [] => x
  | op :: ops => leftToRight (op.apply x (ρ 0)) (fun i => ρ (i + 1)) ops

theorem leftToRight_append (x : Multiset Row) (ρ : Nat → Multiset Row) (ops ops' : List SetOp) :
    leftToRight x ρ (ops ++ ops') =
      leftToRight (leftToRight x ρ ops) (fun i => ρ (ops.length + i)) ops' := by
  induction ops generalizing x ρ with
  | nil => simp [leftToRight]
  | cons op ops ih =>
    simp only [List.cons_append, leftToRight, ih, List.length_cons]
    congr 2
    funext i
    congr 1
    omega

/-- Whether an operand of `outer` that joins with `inner` may be taken apart. -/
def joins : SetOp → SetOp → Bool
  | .union, .union | .unionAll, .unionAll | .intersect, .intersect | .intersect, .except => true
  | _, _ => false

theorem apply_apply {outer inner : SetOp} (h : outer.joins inner = true) (x y z : Multiset Row) :
    inner.apply (outer.apply x y) z = outer.apply x (inner.apply y z) := by
  cases outer <;> cases inner <;> cases h
  case union.union => exact Multiset.dedup_ext.2 fun r => by simp [apply, or_assoc]
  case unionAll.unionAll => exact Multiset.add_assoc x y z
  case intersect.intersect => exact Multiset.dedup_ext.2 fun r => by simp [apply, and_assoc]
  case intersect.except => exact Multiset.dedup_ext.2 fun r => by simp [apply, and_assoc]

/-- No other operators are like that, already for relations of at most one row. -/
theorem joins_iff {outer inner : SetOp} :
    outer.joins inner = true ↔
      ∀ x y z : Multiset Unit,
        inner.apply (outer.apply x y) z = outer.apply x (inner.apply y z) := by
  refine ⟨apply_apply, fun h => ?_⟩
  have hlast := h 0 0 {()}
  have hfirst := h {()} 0 0
  have houter := h {()} 0 {()}
  revert hlast hfirst houter
  cases outer <;> cases inner <;> decide

end SetOp

/-! ## What a set operation means -/

mutual

/-- The `SELECT`s of a set operation, in order. -/
def QueryBody.selects : QueryBody → List Select
  | .select select => [select]
  | .setOp _ operands => Query.selectsEach operands

def Query.selectsEach : List Query → List Select
  | [] => []
  | ⟨body, _, _, _⟩ :: operands => body.selects ++ Query.selectsEach operands

end

mutual

/-- The operators between them. -/
def QueryBody.operators : QueryBody → List SetOp
  | .select _ => []
  | .setOp _ [] => []
  | .setOp op (⟨body, _, _, _⟩ :: operands) => body.operators ++ Query.operatorsEach op operands

/-- The operators before and between the `SELECT`s of further operands. -/
def Query.operatorsEach (op : SetOp) : List Query → List SetOp
  | [] => []
  | ⟨body, _, _, _⟩ :: operands => op :: body.operators ++ Query.operatorsEach op operands

end

section Value

variable {Row : Type} [DecidableEq Row]

mutual

/-- The relation that a set operation denotes, given those of its `SELECT`s in order. -/
def QueryBody.value : QueryBody → (Nat → Multiset Row) → Multiset Row
  | .select _, ρ => ρ 0
  | .setOp _ [], _ => 0
  | .setOp op (⟨body, _, _, _⟩ :: operands), ρ =>
    Query.joinEach op operands (body.value ρ) fun i => ρ (body.selects.length + i)

/-- A relation joined with those of further operands. -/
def Query.joinEach (op : SetOp) :
    List Query → Multiset Row → (Nat → Multiset Row) → Multiset Row
  | [], x, _ => x
  | ⟨body, _, _, _⟩ :: operands, x, ρ =>
    Query.joinEach op operands (op.apply x (body.value ρ)) fun i => ρ (body.selects.length + i)

end

mutual

/-- Whether a set operation may be taken apart where it stands: behind the operator
`outer`, or first. In what it consists of, the first operand stands where it stood, and
the others behind its own operator. -/
def QueryBody.splits (outer : Option SetOp) : QueryBody → Bool
  | .select _ => true
  | .setOp _ [] => false
  | .setOp op (⟨body, _, _, _⟩ :: operands) =>
    outer.all (·.joins op) && body.splits outer && Query.splitsEach op operands

def Query.splitsEach (outer : SetOp) : List Query → Bool
  | [] => true
  | ⟨body, _, _, _⟩ :: operands => body.splits (some outer) && Query.splitsEach outer operands

end

mutual

theorem QueryBody.length_selects : ∀ (body : QueryBody) {outer : Option SetOp},
    body.splits outer = true → body.selects.length = body.operators.length + 1
  | .select _, _, _ => rfl
  | .setOp op (⟨body, _, _, _⟩ :: operands), _, h => by
    simp only [QueryBody.splits, Bool.and_eq_true] at h
    have hfirst := body.length_selects h.1.2
    have hrest := Query.length_selectsEach op operands h.2
    simp only [QueryBody.selects, Query.selectsEach, QueryBody.operators, List.length_append]
    omega

theorem Query.length_selectsEach (op : SetOp) : ∀ operands : List Query,
    Query.splitsEach op operands = true →
      (Query.selectsEach operands).length = (Query.operatorsEach op operands).length
  | [], _ => rfl
  | ⟨body, _, _, _⟩ :: operands, h => by
    simp only [Query.splitsEach, Bool.and_eq_true] at h
    have hfirst := body.length_selects h.1
    have hrest := Query.length_selectsEach op operands h.2
    simp only [Query.selectsEach, Query.operatorsEach, List.length_append, List.length_cons]
    omega

end

/-- A relation behind an operator that follows `x`, or first. -/
def SetOp.behind (x : Multiset Row) (outer : Option SetOp) (y : Multiset Row) : Multiset Row :=
  outer.elim y fun op => op.apply x y

theorem SetOp.behind_apply {outer : Option SetOp} {op : SetOp}
    (h : outer.all (·.joins op) = true) (x y z : Multiset Row) :
    op.apply (behind x outer y) z = behind x outer (op.apply y z) := by
  cases outer with
  | none => rfl
  | some outer => exact apply_apply h x y z

theorem Query.joinEach_behind {outer : Option SetOp} {op : SetOp}
    (h : outer.all (·.joins op) = true) (x : Multiset Row) :
    ∀ (operands : List Query) (y : Multiset Row) (ρ : Nat → Multiset Row),
      Query.joinEach op operands (SetOp.behind x outer y) ρ =
        SetOp.behind x outer (Query.joinEach op operands y ρ)
  | [], _, _ => rfl
  | ⟨body, _, _, _⟩ :: operands, y, ρ => by
    rw [joinEach, joinEach, SetOp.behind_apply h, joinEach_behind h x operands]

mutual

/-- A set operation that may be taken apart is joined from left to right. -/
theorem QueryBody.leftToRight_operators : ∀ (body : QueryBody) {outer : Option SetOp},
    body.splits outer = true → ∀ (x : Multiset Row) (ρ : Nat → Multiset Row),
      SetOp.leftToRight (SetOp.behind x outer (ρ 0)) (fun i => ρ (i + 1)) body.operators =
        SetOp.behind x outer (body.value ρ)
  | .select _, _, _, _, _ => rfl
  | .setOp op (⟨body, _, _, _⟩ :: operands), outer, h, x, ρ => by
    simp only [QueryBody.splits, Bool.and_eq_true] at h
    rw [QueryBody.operators, SetOp.leftToRight_append, body.leftToRight_operators h.1.2,
      Query.leftToRight_operatorsEach op operands h.2, QueryBody.value, Query.joinEach_behind h.1.1,
      body.length_selects h.1.2]
    congr 2
    funext i
    congr 1
    omega

theorem Query.leftToRight_operatorsEach (op : SetOp) : ∀ operands : List Query,
    Query.splitsEach op operands = true → ∀ (x : Multiset Row) (ρ : Nat → Multiset Row),
      SetOp.leftToRight x ρ (Query.operatorsEach op operands) = Query.joinEach op operands x ρ
  | [], _, _, _ => rfl
  | ⟨body, _, _, _⟩ :: operands, h, x, ρ => by
    simp only [Query.splitsEach, Bool.and_eq_true] at h
    have hfirst : SetOp.leftToRight x ρ (op :: body.operators) = op.apply x (body.value ρ) :=
      body.leftToRight_operators h.1 x ρ
    rw [Query.operatorsEach, SetOp.leftToRight_append, hfirst,
      Query.leftToRight_operatorsEach op operands h.2, Query.joinEach, body.length_selects h.1,
      List.length_cons]

end

end Value

/-! ## The operands that a reader finds -/

namespace Token

/-- How many brackets are open after a token. -/
def depthAfter (t : Token) (depth : Nat) : Nat :=
  if t.opens then depth + 1 else if t = .closing then depth - 1 else depth

theorem depthAfter_of_opens {depth : Nat} {t : Token} (h : t.opens = true) :
    t.depthAfter depth = depth + 1 :=
  if_pos h

theorem depthAfter_of_not_isBracket {depth : Nat} {t : Token} (h : t.isBracket = false) :
    t.depthAfter depth = depth := by
  have hplain : t.opens = false ∧ t ≠ .closing := by simpa [isBracket] using h
  simp [depthAfter, hplain]

/-- What stands before the first set operator outside of brackets, and for each such
operator what follows it up to the next. The depth is the number of open brackets. -/
def split : Nat → List Token → List Token × List (SetOp × List Token)
  | _, [] => ([], [])
  | 0, .setOp op :: ts => ([], (op, (split 0 ts).1) :: (split 0 ts).2)
  | depth, t :: ts => (t :: (split (t.depthAfter depth) ts).1, (split (t.depthAfter depth) ts).2)

theorem split_cons {depth : Nat} {t : Token} (h : 0 < depth ∨ ∀ op, t ≠ .setOp op)
    (ts : List Token) :
    split depth (t :: ts) =
      (t :: (split (t.depthAfter depth) ts).1, (split (t.depthAfter depth) ts).2) := by
  rw [split]
  rintro op rfl rfl
  rcases h with h | h
  · omega
  · exact h op rfl

/-- Where brackets pair up, no operator is found: either the place admits none, or an
open bracket hides it. -/
theorem split_closed {p : Place} {ts : List Token} (h : Closed p ts) {depth : Nat}
    (hp : 0 < depth ∨ p ≠ .query) (us : List Token) :
    split depth (ts ++ us) = (ts ++ (split depth us).1, (split depth us).2) := by
  induction h generalizing depth us with
  | nil => rfl
  | @token p t hbracket hadmits =>
    have ht : 0 < depth ∨ ∀ op, t ≠ .setOp op := by
      refine hp.imp_right fun hp op => ?_
      rintro rfl
      cases p with
      | query => exact hp rfl
      | term | clause => cases hadmits
    rw [List.singleton_append, split_cons ht, depthAfter_of_not_isBracket hbracket]
    rfl
  | append _ _ first second =>
    rw [List.append_assoc, first hp, second hp, List.append_assoc]
  | @bracket p p' ts o ho _ inner =>
    have hopening : ∀ op, o ≠ .setOp op := by
      rintro op rfl
      cases ho
    have hclosing : ∀ op, closing ≠ .setOp op := nofun
    have hdepth : closing.depthAfter (depth + 1) = depth := rfl
    rw [List.cons_append, List.cons_append, List.append_assoc, split_cons (.inr hopening),
      depthAfter_of_opens ho, inner (.inl (Nat.succ_pos depth)), List.singleton_append,
      split_cons (.inr hclosing), hdepth]
    simp

/-- The tokens have the given operands, whatever follows: the end or an operator. -/
def Splits (ts first : List Token) (rest : List (SetOp × List Token)) : Prop :=
  ∀ us more, split 0 us = ([], more) → split 0 (ts ++ us) = (first, rest ++ more)

namespace Splits

variable {ts us first : List Token} {rest rest' : List (SetOp × List Token)}

theorem nil : Splits [] [] [] := fun _ _ h => h

theorem block (h : Closed .clause ts) : Splits ts ts [] := by
  intro us more hus
  rw [split_closed h (.inr nofun), hus, List.append_nil]
  rfl

theorem operator (op : SetOp) (h : Splits ts first rest) :
    Splits (.setOp op :: ts) [] ((op, first) :: rest) := by
  intro us more hus
  rw [List.cons_append, split, h us more hus]
  rfl

theorem append (h : Splits ts first rest) (h' : Splits us [] rest') :
    Splits (ts ++ us) first (rest ++ rest') := by
  intro vs more hvs
  rw [List.append_assoc, h _ _ (h' vs more hvs), List.append_assoc]

theorem split_eq (h : Splits ts first rest) : split 0 ts = (first, rest) := by
  simpa using h [] [] rfl

end Splits

end Token

open Draft

/-- Tokens that are read in a `SELECT` as it is written somewhere. -/
def Select.ReadAs (s : Spelling) (a : Arguments) (select : Select) (ts : List Token) : Prop :=
  ReadIn s a (s.quote = .plain) (select.draft s) ts ∧ ts.head? = some .select

section Written

variable {s : Spelling} {a : Arguments} {row : Option RowAt}

theorem reads_setOp {free : Prop} {steps : List Step} {ts : List Token} (op : SetOp)
    (h : Reads free steps ts) :
    Reads free (.delimiter "" .row :: .token op.sql :: .delimiter "" .row :: steps)
      (.setOp op :: ts) := by
  have htext : Token.ofText op.sql = [.setOp op] :=
    Token.ofText_of_mem (by cases op <;> simp [Token.wordings, SetOp.sql])
  have hword : Reads free (.token op.sql :: .delimiter "" .row :: steps)
      (Token.ofText op.sql ++ ts) := .text op.sql (.delimiter "" .row h)
  rw [htext] at hword
  exact .delimiter "" .row hword

theorem Draft.Written.operator {op : SetOp} {steps : List Step}
    (h : Written s.quote a row (clause (.text op.sql :: clause [])) steps) :
    steps = [.delimiter "" .row, .token op.sql, .delimiter "" .row] := by
  obtain ⟨_, _, hbefore, hrest, rfl⟩ := h.cons
  obtain ⟨_, _, hword, hafter, rfl⟩ := hrest.cons
  obtain rfl := hbefore.delimiter
  obtain rfl := hword.text
  obtain rfl := hafter.delimiter
  rfl

mutual

/-- The operands that are read are the `SELECT`s of the set operation, in order. -/
theorem QueryBody.exists_splits : ∀ (body : QueryBody) {steps : List Step},
    Written s.quote a row (body.draft s) steps →
      ∃ ts first rest, Reads (s.quote = .plain) steps ts ∧ Token.Splits ts first rest ∧
        List.Forall₂ (Select.ReadAs s a) body.selects (first :: rest.map Prod.snd) ∧
        rest.map Prod.fst = body.operators
  | .select select, steps, hw => by
    obtain ⟨ts, hts, hclosed, hstart⟩ := select.framed_draft.readsClosed hw
    have hread : select.ReadAs s a ts := ⟨⟨row, steps, hw, hts⟩, hstart rfl⟩
    exact ⟨ts, ts, [], hts, .block hclosed, .cons hread .nil, rfl⟩
  | .setOp op [], steps, hw => hw.fault.elim
  | .setOp op (⟨body, orderBy, limit, lock⟩ :: operands), steps, hw => by
    simp only [QueryBody.draft] at hw
    split at hw
    · exact hw.fault.elim
    · obtain ⟨steps, more, hsteps, hmore, rfl⟩ := hw.append
      split at hsteps
      · obtain ⟨ts, first, rest, hts, hsplits, hselects, hoperators⟩ :=
          body.exists_splits (Written.scope hsteps)
        obtain ⟨us, rest', hus, hsplits', hselects', hoperators'⟩ :=
          Query.exists_splitsEach op operands hmore
        refine ⟨ts ++ us, first, rest ++ rest', hts.append hus, hsplits.append hsplits', ?_, ?_⟩
        · rw [List.map_append]
          exact List.rel_append hselects hselects'
        · rw [List.map_append, hoperators, hoperators']
          rfl
      · exact hsteps.fault.elim

theorem Query.exists_splitsEach (op : SetOp) : ∀ (operands : List Query) {steps : List Step},
    Written s.quote a row (Query.draftOperands s op false operands) steps →
      ∃ ts rest, Reads (s.quote = .plain) steps ts ∧ Token.Splits ts [] rest ∧
        List.Forall₂ (Select.ReadAs s a) (Query.selectsEach operands) (rest.map Prod.snd) ∧
        rest.map Prod.fst = Query.operatorsEach op operands
  | [], steps, hw => by
    obtain rfl := hw.nil
    exact ⟨[], [], .nil, .nil, .nil, rfl⟩
  | ⟨body, orderBy, limit, lock⟩ :: operands, steps, hw => by
    obtain ⟨steps, more, hsteps, hmore, rfl⟩ := hw.append
    split at hsteps
    · obtain ⟨start, inner, hstart, hinner, rfl⟩ := hsteps.append
      obtain rfl := Written.operator hstart
      obtain ⟨ts, first, rest, hts, hsplits, hselects, hoperators⟩ :=
        body.exists_splits (Written.scope hinner)
      obtain ⟨us, rest', hus, hsplits', hselects', hoperators'⟩ :=
        Query.exists_splitsEach op operands hmore
      refine ⟨.setOp op :: ts ++ us, (op, first) :: rest ++ rest', ?_,
        (hsplits.operator op).append hsplits', ?_, ?_⟩
      · exact (reads_setOp op hts).append hus
      · rw [List.map_append]
        exact List.rel_append hselects hselects'
      · rw [List.map_append, List.map_cons, hoperators, hoperators']
        rfl
    · exact hsteps.fault.elim

end

end Written

namespace QueryBody

variable {s : Spelling} {a : Arguments} {body : QueryBody} {bare : Option TableId}
  {ns ns' : Names} {fs : List Fragment}

/-- With one operand nested behind another, the relation that is read is the one that was
meant for exactly the operators that join. -/
theorem nested_value_iff {outer inner : SetOp} {x y z : Select} :
    let query (body : QueryBody) : Query := ⟨body, [], none, none⟩
    let body : QueryBody := .setOp outer [query (.select x),
      query (.setOp inner [query (.select y), query (.select z)])]
    (∀ ρ : Nat → Multiset Unit,
      SetOp.leftToRight (ρ 0) (fun i => ρ (i + 1)) body.operators = body.value ρ) ↔
        outer.joins inner = true := by
  intro query body
  constructor
  · intro h
    refine SetOp.joins_iff.2 fun u v w => ?_
    exact h fun i => if i = 0 then u else if i = 1 then v else w
  · intro h ρ
    exact SetOp.apply_apply h (ρ 0) (ρ 1) (ρ 2)

/-- Wherever a set operation stands, a reader finds its `SELECT`s in order, with the
operators that were given between them. Joining them from left to right gives the
relation that was meant, if the set operation may be taken apart. -/
theorem operands_found (hrun : (resolveAll s.quote bare (body.draft s)).run ns = .ok (fs, ns'))
    (row : Option RowAt) :
    ∃ ts first rest, Reads (s.quote = .plain) (Fragment.walkAll a s.quote row fs) ts ∧
      Token.split 0 ts = (first, rest) ∧
      List.Forall₂ (Select.ReadAs s a) body.selects (first :: rest.map Prod.snd) ∧
      rest.map Prod.fst = body.operators ∧
      (body.splits none = true → ∀ {Row : Type} [DecidableEq Row] (ρ : Nat → Multiset Row),
        SetOp.leftToRight (ρ 0) (fun i => ρ (i + 1)) (rest.map Prod.fst) = body.value ρ) := by
  have hwritten : Written s.quote a row (body.draft s) (Fragment.walkAll a s.quote row fs) :=
    ⟨bare, ns, fs, ns', resolves_of_run hrun, rfl⟩
  obtain ⟨ts, first, rest, hts, hsplits, hselects, hoperators⟩ := body.exists_splits hwritten
  refine ⟨ts, first, rest, hts, hsplits.split_eq, hselects, hoperators, ?_⟩
  intro hbody Row _ ρ
  rw [hoperators]
  exact body.leftToRight_operators hbody 0 ρ

/-- A difference, joined with a union of three and with another relation. -/
theorem operands_found_nested :
    let s : Spelling := ⟨.sqlite, .double⟩
    let one : Query := ⟨.select ⟨false, [⟨.value (.int32 1), none⟩], [], none, [], none, []⟩,
      [], none, none⟩
    let joined (op : SetOp) (operands : List Query) : Query := ⟨.setOp op operands, [], none, none⟩
    let body : QueryBody := .setOp .union [joined .except [one, one], joined .union [one, one, one],
      one]
    body.splits none = true ∧
      ∃ fs ns', (resolveAll s.quote none (body.draft s)).run (.start "p" true) = .ok (fs, ns') ∧
        ∃ ts first rest, Reads (s.quote = .plain) (Fragment.walkAll {} s.quote none fs) ts ∧
          Token.split 0 ts = (first, rest) ∧
          List.Forall₂ (Select.ReadAs s {}) body.selects (first :: rest.map Prod.snd) ∧
          rest.map Prod.fst = body.operators ∧
          ∀ {Row : Type} [DecidableEq Row] (ρ : Nat → Multiset Row),
            SetOp.leftToRight (ρ 0) (fun i => ρ (i + 1)) (rest.map Prod.fst) = body.value ρ := by
  intro s one joined body
  have hbody : body.splits none = true := by decide +kernel
  obtain ⟨⟨fs, ns'⟩, hrun, -⟩ := exists_ok_of_any
    (x := (resolveAll s.quote none (body.draft s)).run (.start "p" true)) (P := fun _ => True)
    (by decide +kernel)
  obtain ⟨ts, first, rest, hts, hsplit, hselects, hoperators, hvalue⟩ := operands_found hrun none
  exact ⟨hbody, fs, ns', hrun, ts, first, rest, hts, hsplit, hselects, hoperators, hvalue hbody⟩

/-- Taking a difference away is read as taking both parts of it away: of one row
each, the first keeps its row where it should, and not where it is read. -/
theorem nested_difference_regrouped :
    let s : Spelling := ⟨.sqlite, .double⟩
    let one : Query := ⟨.select ⟨false, [⟨.value (.int32 1), none⟩], [], none, [], none, []⟩,
      [], none, none⟩
    let body : QueryBody := .setOp .except [one, ⟨.setOp .except [one, one], [], none, none⟩]
    ∃ fs ns', (resolveAll s.quote none (body.draft s)).run (.start "p" true) = .ok (fs, ns') ∧
      ∃ ts first rest, Reads (s.quote = .plain) (Fragment.walkAll {} s.quote none fs) ts ∧
        Token.split 0 ts = (first, rest) ∧
        List.Forall₂ (Select.ReadAs s {}) body.selects (first :: rest.map Prod.snd) ∧
        ∃ ρ : Nat → Multiset Unit,
          SetOp.leftToRight (ρ 0) (fun i => ρ (i + 1)) (rest.map Prod.fst) ≠ body.value ρ := by
  intro s one body
  obtain ⟨⟨fs, ns'⟩, hrun, -⟩ := exists_ok_of_any
    (x := (resolveAll s.quote none (body.draft s)).run (.start "p" true)) (P := fun _ => True)
    (by decide +kernel)
  have hwritten : Written s.quote {} none (body.draft s) (Fragment.walkAll {} s.quote none fs) :=
    ⟨none, _, fs, ns', resolves_of_run hrun, rfl⟩
  obtain ⟨ts, first, rest, hts, hsplits, hselects, hoperators⟩ := body.exists_splits hwritten
  refine ⟨fs, ns', hrun, ts, first, rest, hts, hsplits.split_eq, hselects, ?_⟩
  rw [hoperators]
  by_contra hsame
  simp only [not_exists, Classical.not_not] at hsame
  exact absurd (nested_value_iff.1 hsame) (by decide)

end QueryBody

end PreparedSql
