import PreparedSql.Proofs.Reading.Brackets

/-!
# The grammar of expressions

How a reader groups tokens. From the loosest to the tightest, the levels are `OR`,
`AND`, `NOT`, comparisons, sums and products; operators between two operands group to
the left, and a comparison may also be a test for `NULL` or for membership.
`Derives level ts t` says that the tokens `ts` are an expression of the level, grouped
as the tree `t`.

A list of tokens is grouped in at most one way. That is proved with a machine that
goes through the tokens once and keeps the operators still waiting for their right
side on a stack: it finds the tree of every derivation (`run_of_derives`), and it has
no choice.

What stands between the brackets of a call, of its filter, of a membership test or of a
query is kept as it is.
-/

namespace PreparedSql

/-- How an expression is grouped. -/
inductive Tree where
  | leaf (l : Leaf)
  | connective (c : Connective) (lhs rhs : Tree)
  | not (t : Tree)
  | isNull (negated : Bool) (t : Tree)
  /-- Membership in a list or in the rows of a query. -/
  | isIn (t : Tree) (content : List Token)
  | existsRow (content : List Token)
  | call (name : String) (content : List Token)
  /-- A call that is made for the rows that pass a filter. -/
  | filtered (name : String) (content filter : List Token)
  /-- A query in parentheses. -/
  | query (content : List Token)
deriving DecidableEq, Repr

inductive Derives : Nat → List Token → Tree → Prop where
  | weaken {k l ts t} : Derives k ts t → l ≤ k → Derives l ts t
  | connective {c : Connective} {ts us l r} : Derives c.strength ts l →
      Derives (c.strength + 1) us r →
      Derives c.strength (ts ++ .connective c :: us) (.connective c l r)
  | not {ts t} : Derives 3 ts t → Derives 3 (.not :: ts) (.not t)
  | isNull {ts t} (negated : Bool) : Derives 4 ts t →
      Derives 4 (ts ++ [.isNull negated]) (.isNull negated t)
  | isIn {ts t p content} : Derives 4 ts t → Closed p content →
      Derives 4 (ts ++ .isIn :: content ++ [.closing]) (.isIn t content)
  | leaf (l : Leaf) : Derives 7 [.leaf l] (.leaf l)
  | existsRow {p content} : Closed p content →
      Derives 7 (.existsRow :: content ++ [.closing]) (.existsRow content)
  | call {p content} (name : String) : Closed p content →
      Derives 7 (.call name :: content ++ [.closing]) (.call name content)
  | filtered {p p' content filter} (name : String) : Closed p content → Closed p' filter →
      Derives 7 (.call name :: content ++ [.closing] ++ (.call "FILTER " :: filter ++ [.closing]))
        (.filtered name content filter)
  | query {p content} : Closed p (.select :: content) →
      Derives 7 (.opening :: .select :: content ++ [.closing]) (.query (.select :: content))
  | parens {ts t} : Derives 1 ts t → Derives 7 (.opening :: ts ++ [.closing]) t

/-! ## One reading -/

namespace Machine

/-- What waits for an expression to end. -/
inductive Frame where
  | connective (c : Connective) (lhs : Tree)
  | not
  | parens
deriving DecidableEq, Repr

namespace Frame

/-- Only a looser operator ends what waits here; a parenthesis is ended by its
partner alone. -/
def strength : Frame → Nat
  | .connective c _ => c.strength
  | .not => 3
  | .parens => 0

def close (t : Tree) : Frame → Tree
  | .connective c lhs => .connective c lhs t
  | .not => .not t
  | .parens => t

end Frame

/-- Ends everything that waits and is at least as strong. -/
def settle (k : Nat) : List Frame → Tree → List Frame × Tree
  | [], t => ([], t)
  | f :: stack, t => if k ≤ f.strength then settle k stack (f.close t) else (f :: stack, t)

inductive State where
  /-- An operand is expected. -/
  | need (stack : List Frame)
  /-- An operand was read. -/
  | got (stack : List Frame) (t : Tree)
  /-- Inside brackets that are kept as they are. -/
  | inside (stack : List Frame) (build : List Token → Tree) (depth : Nat) (content : List Token)

namespace State

def step : State → Token → Option State
  | .need stack, .leaf l => some (.got stack (.leaf l))
  | .need stack, .not => some (.need (.not :: stack))
  | .need stack, .opening => some (.need (.parens :: stack))
  | .need (.parens :: stack), .select => some (.inside stack .query 0 [.select])
  | .need stack, .existsRow => some (.inside stack .existsRow 0 [])
  | .need stack, .call name => some (.inside stack (.call name) 0 [])
  | .got stack t, .connective c =>
    let (stack, lhs) := settle c.strength stack t
    some (.need (.connective c lhs :: stack))
  | .got stack t, .isNull negated =>
    let (stack, t) := settle 4 stack t
    some (.got stack (.isNull negated t))
  | .got stack t, .isIn =>
    let (stack, t) := settle 4 stack t
    some (.inside stack (.isIn t) 0 [])
  | .got stack (.call name content), .call keyword =>
    if keyword = "FILTER " then some (.inside stack (.filtered name content) 0 []) else none
  | .got stack t, .closing =>
    match settle 1 stack t with
    | (.parens :: stack, t) => some (.got stack t)
    | _ => none
  | .inside stack build 0 content, .closing => some (.got stack (build content))
  | .inside stack build (depth + 1) content, .closing =>
    some (.inside stack build depth (content ++ [.closing]))
  | .inside stack build depth content, t =>
    some (.inside stack build (if t.opens then depth + 1 else depth) (content ++ [t]))
  | _, _ => none

def run (state : State) (ts : List Token) : Option State := ts.foldlM step state

/-- The tree of a state in which nothing is missing. -/
def tree? : State → Option Tree
  | .got stack t =>
    match settle 1 stack t with
    | ([], t) => some t
    | _ => none
  | _ => none

variable {state : State} {ts us : List Token} {t : Token} {stack : List Frame}

@[simp] theorem run_nil : run state [] = some state := rfl

@[simp] theorem run_cons : run state (t :: ts) = (state.step t).bind (run · ts) := rfl

@[simp] theorem run_append : run state (ts ++ us) = (run state ts).bind (run · us) :=
  List.foldlM_append ..

end State

variable {stack waiting : List Frame} {t : Tree} {k l : Nat} {ts content : List Token} {p : Place}

/-- What ends when everything that waits is ended. -/
def unwind (waiting : List Frame) (t : Tree) : Tree := waiting.foldl Frame.close t

/-- No operator of the level or a tighter one ends anything on the stack. No operator
between two operands has the strength of a negation. -/
def Accepts (l : Nat) (stack : List Frame) : Prop :=
  ∀ k, l ≤ k → k ≠ 3 → ∀ f ∈ stack.head?, f.strength < k

theorem Accepts.mono (h : Accepts l stack) (hk : l ≤ k) : Accepts k stack :=
  fun j hj hne => h j (Nat.le_trans hk hj) hne

theorem accepts_connective (c : Connective) (lhs : Tree) :
    Accepts (c.strength + 1) (.connective c lhs :: stack) := by
  intro k hk _ f hf
  cases hf
  exact hk

theorem accepts_not : Accepts 3 (.not :: stack) := by
  intro k hk hne f hf
  cases hf
  show 3 < k
  omega

theorem accepts_parens : Accepts 1 (.parens :: stack) := by
  intro k hk _ f hf
  cases hf
  exact hk

theorem strength_ne (c : Connective) : c.strength ≠ 3 := by
  cases c with
  | or => decide
  | and => decide
  | like negated => exact (by decide : (4 : Nat) ≠ 3)
  | binary op => cases op <;> decide

/-- What was put on the stack since is ended, and nothing below it. -/
theorem settle_append (stack : List Frame) (t : Tree) (hwaiting : ∀ f ∈ waiting, k ≤ f.strength)
    (hstack : ∀ f ∈ stack.head?, f.strength < k) :
    settle k (waiting ++ stack) t = (stack, unwind waiting t) := by
  induction waiting generalizing t with
  | nil =>
    cases stack with
    | nil => rfl
    | cons f stack =>
      have hf : f.strength < k := hstack f rfl
      simp [settle, unwind, Nat.not_le.mpr hf]
  | cons f waiting ih =>
    have hf : k ≤ f.strength := hwaiting f (by simp)
    have hrest := ih (f.close t) fun g hg => hwaiting g (by simp [hg])
    simpa [settle, unwind, hf] using hrest

/-- Inside of brackets a token is kept, and counted if it opens one more. -/
theorem step_inside {t : Token} (h : t ≠ .closing) (build : List Token → Tree) (depth : Nat)
    (before : List Token) : State.step (.inside stack build depth before) t =
      some (.inside stack build (if t.opens then depth + 1 else depth) (before ++ [t])) := by
  cases t with
  | closing => exact absurd rfl h
  | _ => simp [State.step]

/-- Closed tokens are kept as they are. -/
theorem run_inside (h : Closed p content) (stack : List Frame) (build : List Token → Tree)
    (depth : Nat) (before : List Token) :
    State.run (.inside stack build depth before) content =
      some (.inside stack build depth (before ++ content)) := by
  induction h generalizing depth before with
  | nil => simp
  | @token _ t hbracket _ =>
    obtain ⟨hopens, hclosing⟩ : t.opens = false ∧ t ≠ .closing := by
      simpa [Token.isBracket] using hbracket
    simp [step_inside hclosing, hopens]
  | append _ _ first second => simp [first, second]
  | @bracket _ _ _ o ho _ inner =>
    have hclosing : o ≠ .closing := by
      rintro rfl
      cases ho
    have hlast (content : List Token) : State.step (.inside stack build (depth + 1) content)
        .closing = some (.inside stack build depth (content ++ [.closing])) := rfl
    simp [step_inside hclosing, ho, inner, hlast]

/-- The machine finds the tree of a derivation, up to what still waits for a looser
operator or the end. -/
theorem run_of_derives (h : Derives l ts t) (stack : List Frame) (hstack : Accepts l stack) :
    ∃ waiting u, State.run (.need stack) ts = some (.got (waiting ++ stack) u) ∧
      (∀ f ∈ waiting, l ≤ f.strength) ∧ unwind waiting u = t := by
  induction h generalizing stack with
  | weaken _ hl ih =>
    obtain ⟨waiting, u, hrun, hwaiting, hu⟩ := ih stack (hstack.mono hl)
    exact ⟨waiting, u, hrun, fun f hf => Nat.le_trans hl (hwaiting f hf), hu⟩
  | @connective c ts us lhs rhs _ _ left right =>
    obtain ⟨waiting, u, hrun, hwaiting, rfl⟩ := left stack hstack
    have hsettle := settle_append _ u hwaiting (hstack _ (Nat.le_refl _) (strength_ne c))
    obtain ⟨waiting', u', hrun', hwaiting', rfl⟩ :=
      right (.connective c (unwind waiting u) :: stack) (accepts_connective c _)
    refine ⟨waiting' ++ [.connective c (unwind waiting u)], u', ?_, ?_, ?_⟩
    · simp [hrun, State.step, hsettle, hrun']
    · intro f hf
      rcases List.mem_append.1 hf with hf | hf
      · exact Nat.le_of_succ_le (hwaiting' f hf)
      · rw [List.mem_singleton.1 hf]
        exact Nat.le_refl _
    · simp [unwind, Frame.close]
  | not _ ih =>
    obtain ⟨waiting, u, hrun, hwaiting, rfl⟩ := ih (.not :: stack) accepts_not
    refine ⟨waiting ++ [.not], u, by simp [State.step, hrun], ?_, by simp [unwind, Frame.close]⟩
    intro f hf
    rcases List.mem_append.1 hf with hf | hf
    · exact hwaiting f hf
    · rw [List.mem_singleton.1 hf]
      exact Nat.le_refl _
  | isNull negated _ ih =>
    obtain ⟨waiting, u, hrun, hwaiting, rfl⟩ := ih stack hstack
    have hsettle := settle_append _ u hwaiting (hstack 4 (Nat.le_refl _) (by decide))
    exact ⟨[], _, by simp [hrun, State.step, hsettle], by simp, rfl⟩
  | isIn _ hcontent ih =>
    obtain ⟨waiting, u, hrun, hwaiting, rfl⟩ := ih stack hstack
    have hsettle := settle_append _ u hwaiting (hstack 4 (Nat.le_refl _) (by decide))
    refine ⟨[], _, ?_, by simp, rfl⟩
    simp [hrun, State.step, hsettle, run_inside hcontent]
  | leaf l => exact ⟨[], .leaf l, by simp [State.step], by simp, rfl⟩
  | existsRow hcontent =>
    exact ⟨[], _, by simp [State.step, run_inside hcontent], by simp, rfl⟩
  | call name hcontent =>
    exact ⟨[], _, by simp [State.step, run_inside hcontent], by simp, rfl⟩
  | filtered name hcontent hfilter =>
    refine ⟨[], _, ?_, by simp, rfl⟩
    simp [State.step, run_inside hcontent, run_inside hfilter]
  | @query p content hcontent =>
    have hinside : State.run (.inside stack .query 0 [.select]) content =
        some (.inside stack .query 0 (.select :: content)) := run_inside hcontent stack .query 0 []
    exact ⟨[], _, by simp [State.step, hinside], by simp, rfl⟩
  | parens _ ih =>
    obtain ⟨waiting, u, hrun, hwaiting, rfl⟩ := ih (.parens :: stack) accepts_parens
    have hsettle := settle_append (.parens :: stack) u hwaiting
      (accepts_parens 1 (Nat.le_refl _) (by decide))
    exact ⟨[], unwind waiting u, by simp [State.step, hrun, hsettle], by simp, rfl⟩

end Machine

/-- The tree of an expression, if the tokens are one. -/
def Tree.parse (ts : List Token) : Option Tree :=
  (Machine.State.run (.need []) ts).bind Machine.State.tree?

namespace Derives

variable {ts : List Token} {t : Tree}

theorem parse_eq (h : Derives 1 ts t) : Tree.parse ts = some t := by
  obtain ⟨waiting, u, hrun, hwaiting, rfl⟩ :=
    Machine.run_of_derives h [] (by simp [Machine.Accepts])
  have hsettle := Machine.settle_append [] u hwaiting (by simp)
  rw [List.append_nil] at hrun hsettle
  simp [Tree.parse, hrun, Machine.State.tree?, hsettle]

/-- Tokens are grouped in at most one way. -/
theorem iff_eq (h : Derives 1 ts t) (t' : Tree) : Derives 1 ts t' ↔ t' = t := by
  constructor
  · intro h'
    exact Option.some.inj (h'.parse_eq.symm.trans h.parse_eq)
  · rintro rfl
    exact h

end Derives

end PreparedSql
