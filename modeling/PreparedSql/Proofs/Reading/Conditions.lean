import PreparedSql.Proofs.Reading.Operands

/-!
# Conditions keep their truth

A condition is built with conjunctions, disjunctions, negations, choices and tests
against the rows of a collection, over tests of simple operands. What it means is read
off the expression; what it is taken to mean is read off the tree in which its tokens
are grouped. The tests are the same on both sides and in the same order, and whatever
truth values they have, both sides agree.

Truth has three values, as a comparison with `NULL` is neither true nor false.
-/

namespace PreparedSql

inductive Truth where
  | no
  | unknown
  | yes
deriving DecidableEq, Repr

namespace Truth

def ofBool : Bool → Truth
  | false => no
  | true => yes

def not : Truth → Truth
  | no => yes
  | unknown => unknown
  | yes => no

/-- The lesser of two values. -/
def and : Truth → Truth → Truth
  | no, _ | _, no => no
  | unknown, _ | _, unknown => unknown
  | yes, yes => yes

/-- The greater of two values. -/
def or : Truth → Truth → Truth
  | yes, _ | _, yes => yes
  | unknown, _ | _, unknown => unknown
  | no, no => no

theorem and_assoc (x y z : Truth) : (x.and y).and z = x.and (y.and z) := by
  cases x <;> cases y <;> cases z <;> rfl

theorem or_assoc (x y z : Truth) : (x.or y).or z = x.or (y.or z) := by
  cases x <;> cases y <;> cases z <;> rfl

@[simp] theorem and_yes (x : Truth) : x.and yes = x := by cases x <;> rfl

@[simp] theorem or_no (x : Truth) : x.or no = x := by cases x <;> rfl

@[simp] theorem no_or (x : Truth) : no.or x = x := by cases x <;> rfl

end Truth

/-! ## Conditions over tests -/

inductive Condition (α : Type) where
  | atom (x : α)
  | const (b : Bool)
  | and (lhs rhs : Condition α)
  | or (lhs rhs : Condition α)
  | not (c : Condition α)

namespace Condition

variable {α β γ : Type}

/-- The tests, in order. A test that occurs twice is listed twice. -/
def atoms : Condition α → List α
  | .atom x => [x]
  | .const _ => []
  | .and lhs rhs | .or lhs rhs => lhs.atoms ++ rhs.atoms
  | .not c => c.atoms

/-- The truth of a condition, given that of its tests in order. -/
def truth (v : Nat → Truth) : Condition α → Truth
  | .atom _ => v 0
  | .const b => .ofBool b
  | .and lhs rhs => (lhs.truth v).and (rhs.truth fun i => v (lhs.atoms.length + i))
  | .or lhs rhs => (lhs.truth v).or (rhs.truth fun i => v (lhs.atoms.length + i))
  | .not c => (c.truth v).not

def all (cs : List (Condition α)) : Condition α := cs.foldr .and (.const true)

def any (cs : List (Condition α)) : Condition α := cs.foldr .or (.const false)

/-- The tests of two conditions correspond, and the conditions agree whatever the truth
of their tests. -/
structure Agrees (R : α → β → Prop) (c : Condition α) (d : Condition β) : Prop where
  atoms : List.Forall₂ R c.atoms d.atoms
  truth : ∀ v, c.truth v = d.truth v

namespace Agrees

variable {R : α → β → Prop} {c c' : Condition α} {d d' : Condition β} {cs : List (Condition α)}
  {ds : List (Condition β)}

theorem refl (c : Condition α) : Agrees Eq c c := ⟨List.forall₂_refl _, fun _ => rfl⟩

theorem trans {e : Condition β} (h : Agrees R c d) (h' : Agrees Eq d e) : Agrees R c e := by
  refine ⟨?_, fun v => (h.truth v).trans (h'.truth v)⟩
  have hatoms : d.atoms = e.atoms := by
    simpa only [List.forall₂_eq_eq_eq] using h'.atoms
  rw [← hatoms]
  exact h.atoms

theorem symm {c d : Condition α} (h : Agrees Eq c d) : Agrees Eq d c :=
  ⟨h.atoms.flip.imp fun _ _ => Eq.symm, fun v => (h.truth v).symm⟩

theorem atom {x : α} {y : β} (h : R x y) : Agrees R (.atom x) (.atom y) :=
  ⟨.cons h .nil, fun _ => rfl⟩

theorem const (b : Bool) : Agrees R (.const b) (.const b) := ⟨.nil, fun _ => rfl⟩

theorem not (h : Agrees R c d) : Agrees R (.not c) (.not d) :=
  ⟨h.atoms, fun v => congrArg Truth.not (h.truth v)⟩

theorem and (h : Agrees R c d) (h' : Agrees R c' d') : Agrees R (.and c c') (.and d d') := by
  refine ⟨List.rel_append h.atoms h'.atoms, fun v => ?_⟩
  rw [Condition.truth, Condition.truth, h.truth, h'.truth, h.atoms.length_eq]

theorem or (h : Agrees R c d) (h' : Agrees R c' d') : Agrees R (.or c c') (.or d d') := by
  refine ⟨List.rel_append h.atoms h'.atoms, fun v => ?_⟩
  rw [Condition.truth, Condition.truth, h.truth, h'.truth, h.atoms.length_eq]

theorem all (h : List.Forall₂ (Agrees R) cs ds) :
    Agrees R (Condition.all cs) (Condition.all ds) := by
  induction h with
  | nil => exact const true
  | cons hfirst _ ih => exact hfirst.and ih

theorem any (h : List.Forall₂ (Agrees R) cs ds) :
    Agrees R (Condition.any cs) (Condition.any ds) := by
  induction h with
  | nil => exact const false
  | cons hfirst _ ih => exact hfirst.or ih

theorem and_assoc (c d e : Condition α) : Agrees Eq (.and c (.and d e)) (.and (.and c d) e) := by
  refine ⟨?_, fun v => ?_⟩
  · simp [Condition.atoms]
  · simp [Condition.truth, Condition.atoms, Truth.and_assoc, Nat.add_assoc]

theorem or_assoc (c d e : Condition α) : Agrees Eq (.or c (.or d e)) (.or (.or c d) e) := by
  refine ⟨?_, fun v => ?_⟩
  · simp [Condition.atoms]
  · simp [Condition.truth, Condition.atoms, Truth.or_assoc, Nat.add_assoc]

theorem and_true (c : Condition α) : Agrees Eq (.and c (.const true)) c := by
  refine ⟨?_, fun v => ?_⟩
  · simp [Condition.atoms]
  · simp [Condition.truth, Truth.ofBool]

theorem or_false (c : Condition α) : Agrees Eq (.or c (.const false)) c := by
  refine ⟨?_, fun v => ?_⟩
  · simp [Condition.atoms]
  · simp [Condition.truth, Truth.ofBool]

theorem false_or (c : Condition α) : Agrees Eq (.or (.const false) c) c := by
  refine ⟨?_, fun v => ?_⟩
  · simp [Condition.atoms]
  · simp [Condition.truth, Truth.ofBool, Condition.atoms]

/-- The alternatives of two disjunctions, put together. -/
theorem any_append (cs ds : List (Condition α)) :
    Agrees Eq (.or (Condition.any cs) (Condition.any ds)) (Condition.any (cs ++ ds)) := by
  induction cs with
  | nil => exact false_or _
  | cons c cs ih => exact (or_assoc _ _ _).symm.trans ((refl c).or ih)

end Agrees

end Condition

/-! ## The condition that a tree stands for -/

namespace Tree

/-- Comparisons of numbers are the ones that stand for a truth value; anything else that
is no connective of conditions is a test. -/
def condition : Tree → Condition Tree
  | .connective .and lhs rhs => .and lhs.condition rhs.condition
  | .connective .or lhs rhs => .or lhs.condition rhs.condition
  | .not t => .not t.condition
  | .connective (.binary .eq) (.leaf (.number m)) (.leaf (.number n)) => .const (m == n)
  | t => .atom t

theorem condition_connective {op : BinaryOp} {lhs rhs : Tree}
    (h : ∀ n, lhs ≠ .leaf (.number n)) :
    (connective (.binary op) lhs rhs).condition = .atom (.connective (.binary op) lhs rhs) := by
  cases op with
  | eq =>
    cases lhs with
    | leaf l =>
      cases l with
      | number n => exact absurd rfl (h n)
      | _ => rfl
    | _ => rfl
  | _ => rfl

theorem condition_chain_and (t : Tree) (ts : List Tree) :
    Condition.Agrees Eq (.and t.condition (.all (ts.map condition)))
      (chain .and t ts).condition := by
  induction ts generalizing t with
  | nil => exact .and_true _
  | cons u ts ih => exact (Condition.Agrees.and_assoc _ _ _).trans (ih (.connective .and t u))

theorem condition_chain_or (t : Tree) (ts : List Tree) :
    Condition.Agrees Eq (.or t.condition (.any (ts.map condition)))
      (chain .or t ts).condition := by
  induction ts generalizing t with
  | nil => exact .or_false _
  | cons u ts ih => exact (Condition.Agrees.or_assoc _ _ _).trans (ih (.connective .or t u))

theorem condition_all (ts : List Tree) :
    Condition.Agrees Eq (.all (ts.map condition)) (all ts).condition := by
  cases ts with
  | nil => exact .const true
  | cons t ts => exact condition_chain_and t ts

theorem condition_any (ts : List Tree) :
    Condition.Agrees Eq (.any (ts.map condition)) (any ts).condition := by
  cases ts with
  | nil => exact .const false
  | cons t ts => exact condition_chain_or t ts

/-- A disjunction of disjunctions, and the disjunction of all their terms. -/
theorem condition_any_flatten (tss : List (List Tree)) :
    Condition.Agrees Eq (.any (tss.map fun ts => (any ts).condition))
      (any tss.flatten).condition := by
  have hterms : Condition.Agrees Eq (.any (tss.map fun ts => .any (ts.map condition)))
      (.any (tss.flatten.map condition)) := by
    induction tss with
    | nil => exact .const false
    | cons ts tss ih =>
      rw [List.flatten_cons, List.map_append]
      exact ((Condition.Agrees.refl _).or ih).trans (.any_append _ _)
  have heach : Condition.Agrees Eq (.any (tss.map fun ts => (any ts).condition))
      (.any (tss.map fun ts => .any (ts.map condition))) := by
    refine .any ?_
    rw [List.forall₂_map_left_iff, List.forall₂_map_right_iff, List.forall₂_same]
    intro ts _
    exact (condition_any ts).symm
  exact (heach.trans hterms).trans (condition_any _)

end Tree

/-- A count is a test by itself. -/
theorem Count.condition_tree (c : Count) : c.tree.condition = .atom c.tree := by
  unfold Count.tree
  split <;> rfl

theorem Count.tree_ne_leaf (c : Count) (l : Leaf) : c.tree ≠ .leaf l := by
  unfold Count.tree
  split <;> exact nofun

/-! ## The condition that an expression stands for -/

/-- A test, written as an expression or made from a column of a row of a collection. -/
inductive Test where
  | expr (e : Expr)
  | equality (e : Expr) (row : RowAt) (column : Nat)

/-- `t` is what the test should be read as. -/
def Test.Shown (s : Spelling) (a : Arguments) (free : Prop) : Test → Tree → Prop
  | .expr e, t => e.Terms s a free [t]
  | .equality e row column, t => ∃ us, e.Terms s a free us ∧
    t = .connective (.binary .eq) (.any us) (.leaf (row.leaf column))

namespace Expr

/-- Operands that are no conditions themselves: columns, literals, parameters, calls, counts
among them, and queries. -/
def isSimple : Expr → Bool
  | .value _ | .column _ _ | .param _ | .count _ _ _ | .call _ _ | .subquery _ => true
  | _ => false

mutual

/-- Conjunctions, disjunctions, negations, choices and tests against the rows of a
collection, over tests of simple operands. What is no test is an operand by itself: texts, type
numbers and records are neither. -/
def isCondition : Expr → Bool
  | .value _ | .column _ _ | .param _ | .count _ _ _ | .call _ _ | .subquery _
  | .existsRow _ _ => true
  | .and es | .or es => allConditions es
  | .not e => e.isCondition
  | .choice _ main alternative => main.isCondition && alternative.isCondition
  | .binary _ lhs rhs => lhs.isSimple && rhs.isSimple
  | .like _ e pattern => e.isSimple && pattern.isSimple
  | .isNull _ e | .inList e _ | .inQuery e _ => e.isSimple
  | .inCollection _ es _ => es.all isSimple
  | .inline _ | .typeId _ | .record _ => false

def allConditions : List Expr → Bool
  | [] => true
  | e :: es => e.isCondition && allConditions es

end

mutual

/-- What a condition means, for the branches that are chosen and the rows that are
given. -/
def condition (a : Arguments) : Expr → Condition Test
  | .and es => .all (conditionEach a es)
  | .or es => .any (conditionEach a es)
  | .not e => .not (e.condition a)
  | .choice key main alternative =>
    if a.alternative key then alternative.condition a else main.condition a
  | .inCollection .disjunction es key =>
    .any ((a.rows key).mapIdx fun index cells =>
      .all (es.mapIdx fun column e => .atom (.equality e ⟨key, index, cells⟩ column)))
  | .inList e list => if list.isEmpty then .const false else .atom (.expr (.inList e list))
  | .existsRow true q => .not (.atom (.expr (.existsRow false q)))
  | e => .atom (.expr e)

def conditionEach (a : Arguments) : List Expr → List (Condition Test)
  | [] => []
  | e :: es => e.condition a :: conditionEach a es

end

theorem operandStrength_of_isSimple {e : Expr} (h : e.isSimple = true) : e.operandStrength = 7 := by
  cases e with
  | value | column | param | count | call | subquery => rfl
  | _ => cases h

theorem sturdy_of_isSimple {e : Expr} (h : e.isSimple = true) : e.sturdy = true := by
  cases e with
  | value | column | param | count | call | subquery => rfl
  | _ => cases h

theorem allSturdy_of_all_isSimple {es : List Expr} (h : es.all isSimple = true) :
    allSturdy 4 es = true := by
  refine allSturdy_iff.2 fun e he => ?_
  have hsimple := List.all_eq_true.1 h e he
  exact ⟨sturdy_of_isSimple hsimple, by rw [operandStrength_of_isSimple hsimple]; decide⟩

mutual

/-- The operands of a condition stay together: those that are conditions are
parenthesised where it matters, and simple ones cannot be taken apart. -/
theorem sturdy_of_isCondition : ∀ e : Expr, e.isCondition = true → e.sturdy = true
  | .value _, _ | .column _ _, _ | .param _, _ | .count _ _ _, _ | .call _ _, _ | .subquery _, _
  | .existsRow _ _, _ => rfl
  | .and es, h | .or es, h => allSturdy_of_allConditions es h
  | .not e, h => e.sturdy_of_isCondition h
  | .choice _ main alternative, h => by
    simp only [isCondition, Bool.and_eq_true] at h
    simp [sturdy, main.sturdy_of_isCondition h.1, alternative.sturdy_of_isCondition h.2]
  | .binary op lhs rhs, h => by
    simp only [isCondition, Bool.and_eq_true] at h
    have hop : op.strength < 7 := by cases op <;> decide
    simp [sturdy, sturdy_of_isSimple h.1, sturdy_of_isSimple h.2, operandStrength_of_isSimple h.1,
      operandStrength_of_isSimple h.2, hop, Nat.le_of_lt hop]
  | .like _ e pattern, h => by
    simp only [isCondition, Bool.and_eq_true] at h
    simp [sturdy, sturdy_of_isSimple h.1, sturdy_of_isSimple h.2, operandStrength_of_isSimple h.1,
      operandStrength_of_isSimple h.2]
  | .isNull _ e, h | .inList e _, h | .inQuery e _, h => by
    have h : e.isSimple = true := h
    simp [sturdy, sturdy_of_isSimple h, operandStrength_of_isSimple h]
  | .inCollection _ es _, h => allSturdy_of_all_isSimple h

theorem allSturdy_of_allConditions :
    ∀ es : List Expr, allConditions es = true → allSturdy 0 es = true
  | [], _ => rfl
  | e :: es, h => by
    simp only [allConditions, Bool.and_eq_true] at h
    simp [allSturdy, e.sturdy_of_isCondition h.1, allSturdy_of_allConditions es h.2]

end

/-! ## Agreement -/

section Agreement

variable {s : Spelling} {a : Arguments} {free : Prop}

theorem ne_number_of_isSimple {e : Expr} {us : List Tree} (h : e.isSimple = true)
    (hus : e.Terms s a free us) (n : Nat) : Tree.any us ≠ .leaf (.number n) := by
  cases e with
  | value v =>
    obtain ⟨w, -, rfl⟩ := hus
    exact nofun
  | column t name =>
    obtain ⟨w, -, rfl⟩ := hus
    exact nofun
  | param p =>
    cases hus
    exact nofun
  | count distinct argument filter =>
    obtain ⟨ats, fts, -, -, rfl⟩ := hus
    exact Count.tree_ne_leaf _ _
  | call name arguments =>
    obtain ⟨items, -, rfl⟩ := hus
    exact nofun
  | subquery q =>
    obtain ⟨content, -, rfl⟩ := hus
    exact nofun
  | _ => cases h

/-- A test that is read as a single term, which is no condition itself. -/
theorem agrees_test {e : Expr} {t : Tree} (he : e.condition a = .atom (.expr e))
    (ht : t.condition = .atom t) (hterms : e.Terms s a free [t]) :
    Condition.Agrees (Test.Shown s a free) (e.condition a) (Tree.any [t]).condition := by
  show Condition.Agrees _ _ t.condition
  rw [he, ht]
  exact .atom hterms

theorem forall₂_mapIdx_mapIdx {α β γ δ : Type} {R : α → β → Prop} {S : γ → δ → Prop} {xs : List α}
    {ys : List β} {f : Nat → α → γ} {g : Nat → β → δ} (h : List.Forall₂ R xs ys)
    (hfg : ∀ i x y, x ∈ xs → R x y → S (f i x) (g i y)) :
    List.Forall₂ S (xs.mapIdx f) (ys.mapIdx g) := by
  induction h generalizing f g with
  | nil => exact .nil
  | cons hxy _ ih =>
    rw [List.mapIdx_cons, List.mapIdx_cons]
    refine .cons (hfg 0 _ _ List.mem_cons_self hxy) (ih fun i x y hx hR => ?_)
    exact hfg (i + 1) x y (List.mem_cons_of_mem _ hx) hR

/-- One row of a collection: a conjunction of equalities. -/
theorem agrees_row {es : List Expr} {tss : List (List Tree)} (h : es.all isSimple = true)
    (hterms : TermsEach s a free es tss) (r : RowAt) :
    Condition.Agrees (Test.Shown s a free)
      (.all (es.mapIdx fun column e => .atom (.equality e r column)))
      (Tree.all (tss.mapIdx fun column us =>
        .connective (.binary .eq) (.any us) (.leaf (r.leaf column)))).condition := by
  refine Condition.Agrees.trans (.all ?_) (Tree.condition_all _)
  rw [List.forall₂_map_right_iff]
  refine forall₂_mapIdx_mapIdx (termsEach_iff.1 hterms) fun column e us he hus => ?_
  have hsimple := List.all_eq_true.1 h e he
  rw [Tree.condition_connective (ne_number_of_isSimple hsimple hus)]
  exact .atom ⟨us, hus, rfl⟩

mutual

/-- An expression means what the terms that it should be read as stand for. -/
theorem agrees_of_terms : ∀ (e : Expr), e.isCondition = true → ∀ us, e.Terms s a free us →
    Condition.Agrees (Test.Shown s a free) (e.condition a) (Tree.any us).condition
  | .value _, _, us, h => by
    obtain ⟨w, hw, rfl⟩ := h
    exact agrees_test rfl rfl ⟨w, hw, rfl⟩
  | .column _ _, _, us, h => by
    obtain ⟨w, hw, rfl⟩ := h
    exact agrees_test rfl rfl ⟨w, hw, rfl⟩
  | .param _, _, us, h => by
    cases h
    exact agrees_test rfl rfl rfl
  | .count _ _ _, _, us, h => by
    obtain ⟨ats, fts, hats, hfts, rfl⟩ := h
    exact agrees_test rfl (Count.condition_tree _) ⟨ats, fts, hats, hfts, rfl⟩
  | .call _ _, _, us, h => by
    obtain ⟨items, hitems, rfl⟩ := h
    exact agrees_test rfl rfl ⟨items, hitems, rfl⟩
  | .subquery _, _, us, h => by
    obtain ⟨content, hcontent, rfl⟩ := h
    exact agrees_test rfl rfl ⟨content, hcontent, rfl⟩
  | .existsRow false q, _, us, h => by
    obtain ⟨content, hcontent, rfl⟩ := h
    exact agrees_test rfl rfl ⟨content, hcontent, rfl⟩
  | .existsRow true q, _, us, h => by
    obtain ⟨content, hcontent, rfl⟩ := h
    exact .not (.atom ⟨content, hcontent, rfl⟩)
  | .and es, hes, us, h => by
    obtain ⟨tss, htss, rfl⟩ := h
    have hagrees := Condition.Agrees.all (agrees_each es hes tss htss)
    have hall := Tree.condition_all (tss.map .any)
    rw [List.map_map] at hall
    exact hagrees.trans hall
  | .or es, hes, us, h => by
    obtain ⟨tss, htss, rfl⟩ := h
    have hagrees := Condition.Agrees.any (agrees_each es hes tss htss)
    cases es with
    | nil => exact .const false
    | cons e es => exact hagrees.trans (Tree.condition_any_flatten tss)
  | .not e, he, us, h => by
    obtain ⟨vs, hvs, rfl⟩ := h
    exact .not (e.agrees_of_terms he vs hvs)
  | .choice key main alternative, he, us, h => by
    simp only [isCondition, Bool.and_eq_true] at he
    rcases h with ⟨hkey, h⟩ | ⟨hkey, h⟩
    · rw [condition, if_pos hkey]
      exact alternative.agrees_of_terms he.2 us h
    · rw [condition, if_neg (by simp [hkey])]
      exact main.agrees_of_terms he.1 us h
  | .binary op lhs rhs, he, us, h => by
    simp only [isCondition, Bool.and_eq_true] at he
    obtain ⟨vs, hvs, ⟨negated, hnull, rfl⟩ | ⟨hnull, ws, hws, rfl⟩⟩ := h
    · exact agrees_test rfl rfl ⟨vs, hvs, .inl ⟨negated, hnull, rfl⟩⟩
    · exact agrees_test rfl (Tree.condition_connective (ne_number_of_isSimple he.1 hvs))
        ⟨vs, hvs, .inr ⟨hnull, ws, hws, rfl⟩⟩
  | .isNull _ e, _, us, h => by
    obtain ⟨vs, hvs, rfl⟩ := h
    exact agrees_test rfl rfl ⟨vs, hvs, rfl⟩
  | .like _ e pattern, _, us, h => by
    obtain ⟨vs, ws, hvs, hws, rfl⟩ := h
    exact agrees_test rfl rfl ⟨vs, ws, hvs, hws, rfl⟩
  | .inList e list, _, us, h => by
    rcases h with ⟨hlist, rfl⟩ | ⟨hlist, vs, items, hvs, hitems, rfl⟩
    · rw [condition, if_pos hlist]
      exact .const false
    · have hcondition : (inList e list).condition a = .atom (.expr (.inList e list)) := by
        rw [condition, if_neg (by simp [hlist])]
      exact agrees_test hcondition rfl (.inr ⟨hlist, vs, items, hvs, hitems, rfl⟩)
  | .inQuery e q, _, us, h => by
    obtain ⟨vs, content, hvs, hcontent, rfl⟩ := h
    exact agrees_test rfl rfl ⟨vs, content, hvs, hcontent, rfl⟩
  | .inCollection .list es key, _, us, h => by
    obtain ⟨vs, hvs, rfl⟩ := h
    exact agrees_test rfl rfl ⟨vs, hvs, rfl⟩
  | .inCollection .disjunction es key, hes, us, h => by
    rcases h with ⟨hrows, rfl⟩ | ⟨hrows, tss, htss, rfl⟩
    · rw [condition, hrows]
      exact .const false
    · refine Condition.Agrees.trans (.any ?_) (Tree.condition_any _)
      rw [List.forall₂_map_right_iff]
      refine forall₂_mapIdx fun index cells hrow => ?_
      exact agrees_row hes (htss index cells hrow) ⟨key, index, cells⟩

theorem agrees_each : ∀ (es : List Expr), allConditions es = true →
    ∀ tss, TermsEach s a free es tss →
      List.Forall₂ (Condition.Agrees (Test.Shown s a free)) (conditionEach a es)
        (tss.map fun us => (Tree.any us).condition)
  | [], _, tss, h => by
    cases h
    exact .nil
  | e :: es, hes, tss, h => by
    simp only [allConditions, Bool.and_eq_true] at hes
    obtain ⟨ts, rest, hts, hrest, rfl⟩ := h
    exact .cons (e.agrees_of_terms hes.1 ts hts) (agrees_each es hes.2 rest hrest)

end

end Agreement

/-! ## Conditions as they are written -/

variable {s : Spelling} {a : Arguments} {e : Expr} {bare : Option TableId} {ns ns' : Names}
  {fs : List Fragment}

/-- What a condition writes is grouped in one way, and if names are told apart from the
words of the language, it is read in one way. The tests of the group are those of the
condition, in order, and whatever their truth, the group has the truth of the condition: a
conjunction of nothing is true, a disjunction of nothing and a test against no rows are
false. -/
theorem truth_stays (hcondition : e.isCondition = true)
    (hrun : (Draft.resolveAll s.quote bare (e.draft s)).run ns = .ok (fs, ns'))
    (row : Option RowAt)
    (hcomplete : (Fragment.walkAll a s.quote row fs).findSome? Step.missing? = none) :
    ∃ ts t, Reads (¬e.clear s = true) (Fragment.walkAll a s.quote row fs) ts ∧
      (e.clear s = true → ∀ ts',
        Reads (¬e.clear s = true) (Fragment.walkAll a s.quote row fs) ts' → ts' = ts) ∧
      (∀ t', Derives 1 ts t' ↔ t' = t) ∧
      List.Forall₂ (Test.Shown s a (¬e.clear s = true)) (e.condition a).atoms t.condition.atoms ∧
      ∀ v : Nat → Truth, (e.condition a).truth v = t.condition.truth v := by
  have hwritten : Draft.Written s.quote a row (e.draft s) (Fragment.walkAll a s.quote row fs) :=
    ⟨bare, ns, fs, ns', Draft.resolves_of_run hrun, rfl⟩
  have hreadable : e.Readable s a (¬e.clear s = true) :=
    e.readable free_of_plain (e.sturdy_of_isCondition hcondition) legible_of_clear
  obtain ⟨ts, us, hts, hspells, hterms⟩ :=
    hreadable row _ hwritten (List.findSome?_eq_none_iff.1 hcomplete)
  obtain ⟨hatoms, htruth⟩ := e.agrees_of_terms hcondition us hterms
  exact ⟨ts, .any us, hts, fun hclear ts' => reads_unique hclear hts, hspells.derives.iff_eq,
    hatoms, htruth⟩

/-- A disjunction inside a negation, a test against two rows inside a conjunction, counts that
are compared, one of them with a filter, and a conjunction of nothing. -/
theorem truth_stays_mixed :
    let s : Spelling := ⟨.mysql, .backtick⟩
    let x : Expr := .param ⟨0⟩
    let one : Expr := .value (.int32 1)
    let e : Expr := .and [.not (.or [.binary .eq x one, .isNull false x]),
      .choice "k" one (.inCollection .disjunction [x, one] "rows"),
      .binary .gt (.count false none none) (.count true (some x) (some (.isNull true x))),
      .or [.and [], .inList x []]]
    let a : Arguments :=
      { param := fun _ => some (.int32 5)
        rows := fun _ => [[.inline "1", .inline "2"], [.inline "3", .inline "4"]]
        alternative := fun _ => true }
    e.isCondition = true ∧ e.clear s = true ∧
      ∃ fs ns', (Draft.resolveAll s.quote none (e.draft s)).run (.start "p" true) = .ok (fs, ns') ∧
        (Fragment.walkAll a s.quote none fs).findSome? Step.missing? = none ∧
        ∃ ts t, Reads (¬e.clear s = true) (Fragment.walkAll a s.quote none fs) ts ∧
          (e.clear s = true → ∀ ts',
            Reads (¬e.clear s = true) (Fragment.walkAll a s.quote none fs) ts' → ts' = ts) ∧
          (∀ t', Derives 1 ts t' ↔ t' = t) ∧
          List.Forall₂ (Test.Shown s a (¬e.clear s = true)) (e.condition a).atoms
            t.condition.atoms ∧
          ∀ v : Nat → Truth, (e.condition a).truth v = t.condition.truth v := by
  intro s x one e a
  have hcondition : e.isCondition = true := by decide +kernel
  have hclear : e.clear s = true := by decide +kernel
  obtain ⟨⟨fs, ns'⟩, hrun, hcomplete⟩ := Draft.exists_ok_of_any
    (x := (Draft.resolveAll s.quote none (e.draft s)).run (.start "p" true))
    (P := fun r => (Fragment.walkAll a s.quote none r.1).findSome? Step.missing? = none)
    (by decide +kernel)
  exact ⟨hcondition, hclear, fs, ns', hrun, hcomplete,
    truth_stays hcondition hrun none hcomplete⟩

end Expr

end PreparedSql
