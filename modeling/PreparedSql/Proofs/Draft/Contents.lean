import PreparedSql.Proofs.Draft.Resolution
import PreparedSql.Proofs.Template.Uniform

/-!
# Drafts with an open literal

A family of drafts, one for each content of a literal, is uniform when its members differ only in
the literal itself. Names are given without a look at texts, so a uniform family gets the same
names throughout: it cannot be written for any content, and for the same cause, or it is written
as uniform fragments.

The lemmas on operators and clauses say that they put uniform parts together to a uniform whole.
-/

namespace PreparedSql.Draft

variable {d : Dialect}

/-- Drafts that are the same but for the open literal. -/
inductive Uniform (d : Dialect) : (String → List Draft) → Prop where
  | nil : Uniform d fun _ => []
  | same {ds} (draft : Draft) : Uniform d ds → Uniform d fun content => draft :: ds content
  | literal {ds} : Uniform d ds →
      Uniform d fun content => .text (Literal.quoted d content) :: ds content
  | group {children ds} : Uniform d children → Uniform d ds →
      Uniform d fun content => .group (children content) :: ds content
  | scope {children ds} (kind : ScopeKind) : Uniform d children → Uniform d ds →
      Uniform d fun content => .scope kind (children content) :: ds content
  | choice {main alternative ds} (key : Key) : Uniform d main → Uniform d alternative →
      Uniform d ds →
      Uniform d fun content => .choice key (main content) (alternative content) :: ds content
  | each {body empty ds} (key : Key) (between : String) : Uniform d body → Uniform d empty →
      Uniform d ds →
      Uniform d fun content => .each key (body content) (empty content) between :: ds content

/-- Lists of drafts of one length, uniform member by member. -/
inductive UniformEach (d : Dialect) : (String → List (List Draft)) → Prop where
  | nil : UniformEach d fun _ => []
  | cons {part parts} : Uniform d part → UniformEach d parts →
      UniformEach d fun content => part content :: parts content

/-- A draft that is there for all contents or for none. -/
inductive UniformOption (d : Dialect) : (String → Option (List Draft)) → Prop where
  | none : UniformOption d fun _ => .none
  | some {part} : Uniform d part → UniformOption d fun content => .some (part content)

variable {ds es : String → List Draft} {parts : String → List (List Draft)}
  {part other : String → Option (List Draft)} {s : Spelling}

namespace UniformEach

theorem zipWith {α : Type} {f : α → List Draft → List Draft}
    (hf : ∀ x {ds}, Uniform d ds → Uniform d fun content => f x (ds content)) (xs : List α)
    (h : UniformEach d parts) : UniformEach d fun content => List.zipWith f xs (parts content) := by
  induction h generalizing xs with
  | nil =>
    simp only [List.zipWith_nil_right]
    exact .nil
  | cons hpart _ ih =>
    cases xs with
    | nil => exact .nil
    | cons x xs => exact .cons (hf x hpart) (ih xs)

theorem mapIdx {f : Nat → List Draft → List Draft}
    (hf : ∀ i {ds}, Uniform d ds → Uniform d fun content => f i (ds content))
    (h : UniformEach d parts) : UniformEach d fun content => (parts content).mapIdx f := by
  induction h generalizing f with
  | nil => exact .nil
  | cons hpart _ ih =>
    simp only [List.mapIdx_cons]
    exact .cons (hf 0 hpart) (ih fun i _ => hf (i + 1))

end UniformEach

namespace Uniform

/-! ## Lists and operators -/

theorem const (ds : List Draft) : Uniform d fun _ => ds := by
  induction ds with
  | nil => exact .nil
  | cons draft ds ih => exact .same draft ih

theorem append (hds : Uniform d ds) (hes : Uniform d es) :
    Uniform d fun content => ds content ++ es content := by
  induction hds with
  | nil => exact hes
  | same draft _ ih => exact .same draft ih
  | literal _ ih => exact .literal ih
  | group hchildren _ _ ih => exact .group hchildren ih
  | scope kind hchildren _ _ ih => exact .scope kind hchildren ih
  | choice key hmain halternative _ _ _ ih => exact .choice key hmain halternative ih
  | each key between hbody hempty _ _ _ ih => exact .each key between hbody hempty ih

theorem ite (b : Bool) (hds : Uniform d ds) (hes : Uniform d es) :
    Uniform d fun content => if b then ds content else es content := by
  cases b with
  | false => exact hes
  | true => exact hds

theorem clause (h : Uniform d ds) : Uniform d fun content => clause (ds content) := .same _ h

theorem bracket (opening : String) (h : Uniform d ds) :
    Uniform d fun content => .text opening :: ds content ++ [.text ")"] :=
  .append (.same _ h) (const _)

theorem parensIf (b : Bool) (h : Uniform d ds) : Uniform d fun content => parensIf b (ds content) :=
  .ite b (.bracket "(" h) h

theorem operand (e : Expr) (h : Uniform d ds) : Uniform d fun content => operand e (ds content) :=
  .parensIf _ h

theorem enclosed (opening : String) (h : Uniform d ds) :
    Uniform d fun content => enclosed opening (ds content) :=
  .same _ (.scope .nested (.group h .nil) (const _))

theorem intercalate (between : Draft) (h : UniformEach d parts) :
    Uniform d fun content => List.intercalate [between] (parts content) := by
  induction h with
  | nil => exact .nil
  | cons hpart hparts ih =>
    cases hparts with
    | nil =>
      simp only [List.intercalate_singleton]
      exact hpart
    | cons _ _ =>
      simp only [List.intercalate_cons_cons]
      exact .append (.append hpart (const _)) ih

theorem commas (kind : DelimiterKind) (h : UniformEach d parts) :
    Uniform d fun content => commas kind (parts content) :=
  .intercalate _ h

theorem words (word : String) (h : UniformEach d parts) :
    Uniform d fun content => words word (parts content) :=
  .intercalate _ h

theorem conjunction (operands : List Expr) (h : UniformEach d parts) :
    Uniform d fun content => conjunction operands (parts content) :=
  .ite _ (const _) (.words "AND" (h.zipWith (fun b _ => .parensIf b) _))

theorem disjunction (h : UniformEach d parts) :
    Uniform d fun content => disjunction (parts content) := by
  cases h with
  | nil => exact const _
  | cons hpart hparts => exact .words "OR" (.cons hpart hparts)

theorem comparison (op : BinaryOp) (lhs rhs : Expr) (hl : Uniform d ds) (hr : Uniform d es) :
    Uniform d fun content => comparison op lhs rhs (ds content) (es content) := by
  unfold Draft.comparison
  split
  · exact .append (.operand lhs hl) (const _)
  · exact .append (.operand lhs hl) (const _)
  · exact .append (.operand lhs hl) (.same _ (.operand rhs hr))

theorem membership (e : Expr) (hds : Uniform d ds) (h : UniformEach d parts) :
    Uniform d fun content => membership e (ds content) (parts content) := by
  cases h with
  | nil => exact const _
  | cons hpart hparts =>
    exact .append (.append (.operand e hds) (.same _ (.commas .other (.cons hpart hparts))))
      (const _)

theorem getD (word : String) (h : UniformOption d part) :
    Uniform d fun content => (part content).getD [.text word] := by
  cases h with
  | none => exact const _
  | some h => exact h

theorem count (s : Spelling) (distinct : Bool) (hargument : UniformOption d part)
    (hfilter : UniformOption d other) :
    Uniform d fun content => count s distinct (part content) (other content) := by
  have hstar := getD "*" hargument
  have hone := getD "1" hargument
  have hnone : (fun content => (part content).isNone) = fun _ => (part "").isNone := by
    cases hargument <;> rfl
  simp only [Draft.count, congrFun hnone]
  refine .ite _ (const _) (.append (.same _ (const _)) ?_)
  cases hfilter with
  | none => exact .append hstar (const _)
  | some hfilter =>
    cases s.features.countFilter with
    | true => exact .append (.append (.append hstar (const _)) hfilter) (const _)
    | false => exact .append (.append (.same _ hfilter) (.same _ hone)) (const _)

theorem collectionTest (s : Spelling) (style : CollectionTest) (key : Key) (operands : List Expr)
    (h : UniformEach d parts) :
    Uniform d fun content => collectionTest s style key operands (parts content) := by
  match style, operands with
  | .list, [] | .list, _ :: _ :: _ => exact const _
  | .list, [e] =>
    match h with
    | .nil => exact const _
    | .cons hpart .nil => exact .append (.operand e hpart) (const _)
    | .cons _ (.cons _ _) => exact const _
  | .disjunction, [] => exact const _
  | .disjunction, e :: operands =>
    have hequalities := (h.zipWith (fun e _ => .operand e) (e :: operands)).mapIdx
      (f := fun index ds => ds ++ [.text "=", .cell index]) fun _ _ hds => hds.append (const _)
    exact .each key _ (.words "AND" hequalities) (const _) .nil

/-! ## Clauses -/

theorem optionalClause (keyword : String) (h : UniformOption d part) :
    Uniform d fun content => optionalClause keyword (part content) := by
  cases h with
  | none => exact .nil
  | some h => exact .clause (.same _ h)

theorem listClause (keyword : String) (h : UniformEach d parts) :
    Uniform d fun content => listClause keyword (parts content) := by
  cases h with
  | nil => exact .nil
  | cons hpart hparts => exact .clause (.same _ (.commas .other (.cons hpart hparts)))

theorem projected (s : Spelling) (label : Option String) (h : Uniform d ds) :
    Uniform d fun content => projected s (ds content) label :=
  .append h (const _)

theorem returning (s : Spelling) (h : UniformEach d parts) :
    Uniform d fun content => returning s (parts content) := by
  cases h with
  | nil => exact .nil
  | cons hpart hparts =>
    exact .ite s.features.returning (.clause (.same _ (.commas .other (.cons hpart hparts))))
      (const _)

end Uniform

/-! ## Names -/

/-- Names are given in the same way for all contents. -/
def Named (d : Dialect) (x : String → Except Cause (List Fragment × Names)) : Prop :=
  (∃ cause, ∀ content, x content = .error cause) ∨
    ∃ fs ns, Fragment.Uniform d fs ∧ ∀ content, x content = .ok (fs content, ns)

namespace Named

variable {x : String → Except Cause (List Fragment × Names)}

/-- Going on with the fragments and the names. -/
theorem bind (h : Named d x)
    {next : String → List Fragment × Names → Except Cause (List Fragment × Names)}
    (hnext : ∀ fs ns, Fragment.Uniform d fs →
      Named d fun content => next content (fs content, ns)) :
    Named d fun content => x content >>= next content := by
  obtain ⟨cause, herror⟩ | ⟨fs, ns, hfs, hok⟩ := h
  · exact .inl ⟨cause, fun content => by simp only [herror]; rfl⟩
  · have hsame (content : String) :
        (x content >>= next content) = next content (fs content, ns) := by
      rw [hok]
      rfl
    simpa only [hsame] using hnext fs ns hfs

theorem pure {fs : String → List Fragment} (hfs : Fragment.Uniform d fs) (ns : Names) :
    Named d fun content => .ok (fs content, ns) :=
  .inr ⟨fs, ns, hfs, fun _ => rfl⟩

theorem const (x : Except Cause (List Fragment × Names)) : Named d fun _ => x := by
  cases x with
  | error cause => exact .inl ⟨cause, fun _ => rfl⟩
  | ok result => exact pure (.const result.1) result.2

end Named

variable {q : QuoteMark} {bare : Option TableId} {ns : Names}

theorem Named.cons {draft : String → Draft} {ds : String → List Draft}
    (hdraft : Named d fun content => (resolve q bare (draft content)).run ns)
    (hds : ∀ ns, Named d fun content => (resolveAll q bare (ds content)).run ns) :
    Named d fun content => (resolveAll q bare (draft content :: ds content)).run ns := by
  simp only [run_resolveAll_cons]
  refine hdraft.bind fun first mid hfirst => ?_
  exact (hds mid).bind fun rest last hrest => .pure (hfirst.append hrest) last

/-- A uniform family of drafts gets the same names throughout. -/
theorem Uniform.named {ds : String → List Draft} (h : Uniform d ds) (q : QuoteMark)
    (bare : Option TableId) (ns : Names) :
    Named d fun content => (resolveAll q bare (ds content)).run ns := by
  induction h generalizing bare ns with
  | nil => exact .pure .nil ns
  | same draft _ ih => exact .cons (.const _) fun ns => ih bare ns
  | literal _ ih => exact .cons (.pure (.text Text.uniform_quoted .nil) ns) fun ns => ih bare ns
  | group _ _ inner ih =>
    refine .cons ?_ fun ns => ih bare ns
    simp only [run_group]
    exact (inner bare ns.indented).bind fun fs mid hfs => .pure (.group true hfs .nil) mid.outdented
  | scope kind _ _ inner ih =>
    refine .cons ?_ fun ns => ih bare ns
    simp only [run_scope]
    exact (inner (kind.bare bare) (ns.entered kind)).bind fun fs mid hfs =>
      .pure hfs (mid.closeScope ns.mark)
  | choice key _ _ _ first second ih =>
    refine .cons ?_ fun ns => ih bare ns
    simp only [run_choice]
    refine (first bare ns).bind fun main mid hmain => ?_
    exact (second bare mid).bind fun alternative last halternative =>
      .pure (.choice key hmain halternative .nil) last
  | each key between _ _ _ first second ih =>
    refine .cons ?_ fun ns => ih bare ns
    simp only [run_each]
    refine (first bare ns).bind fun body mid hbody => ?_
    exact (second bare mid).bind fun empty last hempty =>
      .pure (.each key between hbody hempty .nil) last

end PreparedSql.Draft
