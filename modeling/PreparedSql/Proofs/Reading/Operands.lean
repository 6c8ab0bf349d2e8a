import PreparedSql.Proofs.Reading.Expressions

/-!
# Operands stay with their operators

An expression that compiles, wherever it stands, is written so that a reader finds
every operand with the operator it was given to, provided that the expression is
sturdy. A negation that is tested for `NULL` is not: it is written without
parentheses, and the test goes to what is negated.
-/

namespace PreparedSql.Expr

/-- Whether the texts of names and functions are told apart from the words of the
language. Quoted names are. -/
def clear (s : Spelling) (e : Expr) : Bool := s.quote != .plain && e.legible

theorem free_of_plain {s : Spelling} {e : Expr} (h : s.quote = .plain) : ¬e.clear s = true := by
  simp [clear, h]

/-- What is told apart from the words of the language is read in one way. -/
theorem reads_unique {s : Spelling} {e : Expr} {steps : List Step} {ts ts' : List Token}
    (h : e.clear s = true) (hts : Reads (¬e.clear s = true) steps ts)
    (hts' : Reads (¬e.clear s = true) steps ts') : ts' = ts :=
  hts'.unique (fun hfree => hfree h) hts

theorem legible_of_clear {s : Spelling} {e : Expr} (h : ¬¬e.clear s = true) : e.legible = true := by
  simp only [clear, Bool.and_eq_true, Classical.not_not] at h
  exact h.2

variable {s : Spelling} {a : Arguments} {e : Expr} {bare : Option TableId} {ns ns' : Names}
  {fs : List Fragment}

/-- What a sturdy expression writes is grouped in one way, and every operand is the
group of the expression that was put there. Texts are read by their wording, and so in one
way; only if names are not told apart by it, they are read as names. -/
theorem operands_stay (hsturdy : e.sturdy = true)
    (hrun : (Draft.resolveAll s.quote bare (e.draft s)).run ns = .ok (fs, ns'))
    (row : Option RowAt)
    (hcomplete : (Fragment.walkAll a s.quote row fs).findSome? Step.missing? = none) :
    ∃ ts us, Reads (¬e.clear s = true) (Fragment.walkAll a s.quote row fs) ts ∧
      (e.clear s = true → ∀ ts',
        Reads (¬e.clear s = true) (Fragment.walkAll a s.quote row fs) ts' → ts' = ts) ∧
      e.Terms s a (¬e.clear s = true) us ∧ ∀ t, Derives 1 ts t ↔ t = .any us := by
  have hwritten : Draft.Written s.quote a row (e.draft s) (Fragment.walkAll a s.quote row fs) :=
    ⟨bare, ns, fs, ns', Draft.resolves_of_run hrun, rfl⟩
  have hreadable : e.Readable s a (¬e.clear s = true) :=
    e.readable free_of_plain hsturdy legible_of_clear
  obtain ⟨ts, us, hts, hspells, hterms⟩ :=
    hreadable row _ hwritten (List.findSome?_eq_none_iff.1 hcomplete)
  exact ⟨ts, us, hts, fun hclear ts' => reads_unique hclear hts, hterms, hspells.derives.iff_eq⟩

/-- A comparison of two comparisons, one of them chosen at execution, and a test of a
sum against a list with a filtered count in it. -/
theorem operands_stay_nested :
    let s : Spelling := ⟨.mysql, .backtick⟩
    let x : Expr := .param ⟨0⟩
    let one : Expr := .value (.int32 1)
    let e : Expr := .binary .eq (.isNull true (.binary .ne x (.value .null)))
      (.choice "k" (.or [x, .inList (.binary .add x (.binary .mul x one)) [x, .not one,
        .binary .gt (.count true (some x) (some (.isNull true x))) one]]) one)
    let a : Arguments := { param := fun _ => some (.int32 5) }
    e.sturdy = true ∧ e.clear s = true ∧
      ∃ fs ns', (Draft.resolveAll s.quote none (e.draft s)).run (.start "p" true) = .ok (fs, ns') ∧
        (Fragment.walkAll a s.quote none fs).findSome? Step.missing? = none ∧
        ∃ ts us, Reads (¬e.clear s = true) (Fragment.walkAll a s.quote none fs) ts ∧
          (e.clear s = true → ∀ ts',
            Reads (¬e.clear s = true) (Fragment.walkAll a s.quote none fs) ts' → ts' = ts) ∧
          e.Terms s a (¬e.clear s = true) us ∧ ∀ t, Derives 1 ts t ↔ t = .any us := by
  intro s x one e a
  have hsturdy : e.sturdy = true := by decide +kernel
  have hclear : e.clear s = true := by decide +kernel
  obtain ⟨⟨fs, ns'⟩, hrun, hcomplete⟩ := Draft.exists_ok_of_any
    (x := (Draft.resolveAll s.quote none (e.draft s)).run (.start "p" true))
    (P := fun r => (Fragment.walkAll a s.quote none r.1).findSome? Step.missing? = none)
    (by decide +kernel)
  exact ⟨hsturdy, hclear, fs, ns', hrun, hcomplete, operands_stay hsturdy hrun none hcomplete⟩

/-- `NOT (x = 1)`, tested for `NULL`: the test is made on `x = 1`, and what is negated is
its result. -/
theorem test_escapes_negation :
    let s : Spelling := ⟨.mysql, .backtick⟩
    let e : Expr := .isNull false (.not (.binary .eq (.param ⟨0⟩) (.value (.int32 1))))
    let a : Arguments := { param := fun _ => some (.int32 5) }
    ∃ fs ns', (Draft.resolveAll s.quote none (e.draft s)).run (.start "p" true) = .ok (fs, ns') ∧
      ∃ ts t, Reads False (Fragment.walkAll a s.quote none fs) ts ∧
        (∀ t', Derives 1 ts t' ↔ t' = t) ∧ ¬ ∃ us, e.Terms s a False us ∧ t = .any us := by
  intro s e a
  let m : Marker := ⟨.param ⟨0⟩, "p0", .int32 5⟩
  obtain ⟨⟨fs, ns'⟩, hrun, hsteps⟩ := Draft.exists_ok_of_any
    (x := (Draft.resolveAll s.quote none (e.draft s)).run (.start "p" true))
    (P := fun r => Fragment.walkAll a s.quote none r.1 =
      [.token "NOT (", .gap, .marker m, .settle false, .token "=", .token "1", .token ")",
        .token "IS NULL"])
    (by decide +kernel)
  refine ⟨fs, ns', hrun, ?_⟩
  rw [hsteps]
  have hreads : Reads False _ _ :=
    .text "NOT (" (.marker m false (.text "=" (.text "1" (.text ")" (.text "IS NULL" .nil)))))
  have htokens : Token.ofText "NOT (" ++ .leaf (.slot m.slot) :: (Token.ofText "=" ++
      (Token.ofText "1" ++ (Token.ofText ")" ++ (Token.ofText "IS NULL" ++ [])))) =
      .not :: (.opening :: ([.leaf (.slot m.slot)] ++ .connective (.binary .eq) ::
        [.leaf (.word "1")]) ++ [.closing] ++ [.isNull false]) := by decide +kernel
  rw [htokens] at hreads
  have hequals : Derives 4 _ _ := .connective (c := .binary .eq)
    ((Derives.leaf (.slot m.slot)).weaken (by decide))
    ((Derives.leaf (.word "1")).weaken (by decide))
  have htest : Derives 4 _ _ :=
    .isNull false ((Derives.parens (hequals.weaken (by decide))).weaken (by decide))
  have hnot : Derives 3 _ _ := .not (htest.weaken (by decide))
  refine ⟨_, _, hreads, (hnot.weaken (by decide)).iff_eq, ?_⟩
  rintro ⟨us, ⟨vs, -, rfl⟩, h⟩
  cases h

end PreparedSql.Expr
