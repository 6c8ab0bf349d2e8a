import PreparedSql.Proofs.Reading.Precedence

/-!
# Counts as they are read

`COUNT` is written in one of three forms. Without a filter it is a call. With one, a dialect that
has filters writes the filter after the call, and another dialect counts a value that is `NULL`
where the filter does not hold. A reader takes each form as one operand.

Whatever is asked of the readings of the argument and of the filter, they are found in the tokens
of the count (`Expr.exists_reads_count`).
-/

namespace PreparedSql

/-- What is counted in each row. -/
inductive Counted where
  /-- The row itself. -/
  | row
  | operand (ts : List Token)
  /-- An operand where a condition is true, and `NULL` everywhere else. -/
  | guarded (condition ts : List Token)
deriving DecidableEq, Repr

namespace Counted

def tokens : Counted → List Token
  | .row => [.connective (.binary .mul)]
  | .operand ts => ts
  | .guarded condition ts =>
    .leaf (.word "CASE WHEN") :: condition ++ .leaf (.word "THEN") :: ts ++ [.leaf (.word "END")]

/-- What is counted of an argument, or of the rows if there is none. -/
theorem tokens_elim (argument : Option (List Token)) :
    (argument.elim row operand).tokens = argument.getD [.connective (.binary .mul)] := by
  cases argument <;> rfl

end Counted

/-- A use of `COUNT` as it is read. -/
structure Count where
  distinct : Bool
  counted : Counted
  filter : Option (List Token)
deriving DecidableEq, Repr

namespace Count

def tokens (c : Count) : List Token :=
  .call "COUNT" :: ((if c.distinct then [.leaf (.word "DISTINCT")] else []) ++ c.counted.tokens) ++
    .closing ::
    match c.filter with
    | none => []
    | some ts => .call "FILTER " :: .leaf (.word "WHERE") :: ts ++ [.closing]

/-- `COUNT(argument)`. Without an argument, rows are counted. -/
def plain (distinct : Bool) (argument : Option (List Token)) : Count :=
  ⟨distinct, argument.elim .row .operand, none⟩

/-- `COUNT(CASE WHEN filter THEN argument END)`. Without an argument, a number is counted. -/
def guarding (distinct : Bool) (argument : Option (List Token)) (filter : List Token) : Count :=
  ⟨distinct, .guarded filter (argument.getD [.leaf (.word "1")]), none⟩

/-- `COUNT(argument) FILTER (WHERE filter)`. Without an argument, rows are counted. -/
def filtering (distinct : Bool) (argument : Option (List Token)) (filter : List Token) : Count :=
  ⟨distinct, argument.elim .row .operand, some filter⟩

/-- The form that a dialect writes. -/
def form (s : Spelling) (distinct : Bool) (argument filter : Option (List Token)) : Count :=
  match filter with
  | none => plain distinct argument
  | some ts =>
    if s.features.countFilter then filtering distinct argument ts else guarding distinct argument ts

/-- What stands between the brackets of the call. -/
def content (c : Count) : List Token :=
  (if c.distinct then [.leaf (.word "DISTINCT")] else []) ++ c.counted.tokens

/-- The operand that a count is read as. -/
def tree (c : Count) : Tree :=
  match c.filter with
  | none => .call "COUNT" c.content
  | some ts => .filtered "COUNT" c.content (.leaf (.word "WHERE") :: ts)

section Derives

variable {distinct : Bool} {argument filter : Option (List Token)}

/-- A count is one operand if the brackets of what is counted and of the filter pair up. -/
theorem derives {c : Count} (hcounted : Closed .term c.counted.tokens)
    (hfilter : ∀ ts ∈ c.filter, Closed .term ts) : Derives 7 c.tokens c.tree := by
  have hcontent : Closed .term c.content := by
    refine Closed.append ?_ hcounted
    split
    · exact .token rfl rfl
    · exact .nil
  obtain ⟨distinct, counted, filter⟩ := c
  cases filter with
  | none => exact .call "COUNT" hcontent
  | some ts =>
    have hwhere : Closed .term (.leaf (.word "WHERE") :: ts) := .cons rfl rfl (hfilter ts rfl)
    simpa [tokens, tree, content] using Derives.filtered "COUNT" hcontent hwhere

theorem closed_elim (h : ∀ ts ∈ argument, Closed .term ts) :
    Closed .term (argument.elim Counted.row .operand).tokens := by
  cases argument with
  | none => exact .token rfl rfl
  | some ts => exact h ts rfl

theorem closed_guarded {condition ts : List Token} (hcondition : Closed .term condition)
    (hts : Closed .term ts) : Closed .term (Counted.guarded condition ts).tokens := by
  have hcase : Closed .term (.leaf (.word "CASE WHEN") :: condition) := .cons rfl rfl hcondition
  have hthen : Closed .term (.leaf (.word "THEN") :: ts) := .cons rfl rfl hts
  exact (hcase.append hthen).append (.token rfl rfl)

/-- Each form is one operand if the brackets of the argument and of the filter pair up. -/
theorem derives_form (s : Spelling) (hargument : ∀ ts ∈ argument, Closed .term ts)
    (hfilter : ∀ ts ∈ filter, Closed .term ts) :
    Derives 7 (form s distinct argument filter).tokens (form s distinct argument filter).tree := by
  cases filter with
  | none => exact derives (closed_elim hargument) (by simp [form, plain])
  | some ts =>
    have hts := hfilter ts rfl
    rw [form]
    split
    · exact derives (closed_elim hargument) (by simpa [filtering] using hts)
    · refine derives (closed_guarded hts ?_) (by simp [guarding])
      cases argument with
      | none => exact .token rfl rfl
      | some ts => exact hargument ts rfl

end Derives

end Count

/-! ## Counts as they are written -/

open Draft

section Written

variable {s : Spelling} {a : Arguments} {free : Prop} {row : Option RowAt} {steps : List Step}
  {distinct : Bool} {argument filter : Option Expr}

/-- A word of the language that stands for itself. -/
theorem Draft.Written.reads_word {w : String} (hw : Written s.quote a row [.text w] steps)
    (h : Token.ofText w = [.leaf (.word w)]) : Reads free steps [.leaf (.word w)] := by
  obtain rfl := hw.text
  exact .of_text h

theorem Draft.Written.reads_distinct
    (hw : Written s.quote a row (if distinct then [.text "DISTINCT"] else []) steps) :
    Reads free steps (if distinct then [.leaf (.word "DISTINCT")] else []) := by
  cases distinct with
  | false =>
    obtain rfl := hw.nil
    exact .nil
  | true => exact hw.reads_word (by decide +kernel)

theorem Reads.count {ts : List Token} (h : Reads free steps ts) :
    Reads free (.token "COUNT(" :: steps ++ [.token ")"]) (.call "COUNT" :: ts ++ [.closing]) := by
  have hopening : Token.ofText "COUNT(" = [.call "COUNT"] := by decide +kernel
  have hbracket := h.bracket "COUNT("
  rwa [hopening] at hbracket

/-- What is written has no fault: distinct values are counted of an argument. -/
theorem Draft.Written.count_argument {operand test : Option (List Draft)}
    (hw : Written s.quote a row (count s distinct operand test) steps) :
    (distinct && operand.isNone) = false := by
  cases operand with
  | some ds => exact Bool.and_false distinct
  | none =>
    cases distinct with
    | false => rfl
    | true => exact hw.fault.elim

theorem Draft.count_plain {operand : Option (List Draft)}
    (h : (distinct && operand.isNone) = false) :
    count s distinct operand none =
      .text "COUNT(" ::
        ((if distinct then [.text "DISTINCT"] else []) ++ operand.getD [.text "*"]) ++
          [.text ")"] := by
  simp [count, h]

theorem Draft.count_guarded {operand : Option (List Draft)} (hs : s.features.countFilter = false)
    (h : (distinct && operand.isNone) = false) (test : List Draft) :
    count s distinct operand (some test) =
      .text "COUNT(" ::
        ((if distinct then [.text "DISTINCT"] else []) ++
          ([.text "CASE WHEN"] ++ test ++ ([.text "THEN"] ++ operand.getD [.text "1"]) ++
            [.text "END"])) ++ [.text ")"] := by
  simp [count, h, hs]

theorem Draft.count_filtered {operand : Option (List Draft)} (hs : s.features.countFilter = true)
    (h : (distinct && operand.isNone) = false) (test : List Draft) :
    count s distinct operand (some test) =
      (.text "COUNT(" ::
        ((if distinct then [.text "DISTINCT"] else []) ++ operand.getD [.text "*"]) ++
          [.text ")"]) ++
        (.text "FILTER (WHERE" :: test ++ [.text ")"]) := by
  simp [count, h, hs]

/-- An optional expression, or the word that stands in for it. -/
theorem Expr.exists_reads_getD {R : Expr → List Token → Prop} {word : String}
    (hw : Written s.quote a row ((Expr.draftOption s argument).getD [.text word]) steps)
    (hread : ∀ e ∈ argument, Written s.quote a row (e.draft s) steps →
      ∃ ts, Reads free steps ts ∧ R e ts) :
    ∃ ats, Reads free steps (ats.getD (Token.ofText word)) ∧ Option.Rel R argument ats := by
  cases argument with
  | none =>
    obtain rfl := hw.text
    exact ⟨none, .wording word, .none⟩
  | some e =>
    obtain ⟨ts, hts, hR⟩ := hread e rfl hw
    exact ⟨some ts, hts, .some hR⟩

/-- Whatever holds of the readings of the argument and of the filter, the count is read in the form
of the dialect, with such readings. -/
theorem Expr.exists_reads_count {R : Expr → List Token → Prop}
    (hw : Written s.quote a row ((Expr.count distinct argument filter).draft s) steps)
    (hread : ∀ e, e ∈ argument ∨ e ∈ filter → ∀ part, (∀ step ∈ part, step ∈ steps) →
      Written s.quote a row (e.draft s) part → ∃ ts, Reads free part ts ∧ R e ts) :
    ∃ ats fts, Reads free steps (Count.form s distinct ats fts).tokens ∧
      Option.Rel R argument ats ∧ Option.Rel R filter fts := by
  have hstar : Token.ofText "*" = [.connective (.binary .mul)] := by decide +kernel
  have hone : Token.ofText "1" = [.leaf (.word "1")] := by decide +kernel
  have hwhere : Token.ofText "FILTER (WHERE" = [.call "FILTER ", .leaf (.word "WHERE")] := by
    decide +kernel
  change Written s.quote a row
    (Draft.count s distinct (Expr.draftOption s argument) (Expr.draftOption s filter)) steps at hw
  cases filter with
  | none =>
    rw [Expr.draftOption, Draft.count_plain hw.count_argument] at hw
    obtain ⟨inner, hinner, rfl⟩ := hw.bracket
    obtain ⟨word, operand, hword, hoperand, rfl⟩ := hinner.append
    obtain ⟨ats, hats, hargument⟩ := Expr.exists_reads_getD hoperand fun e he =>
      hread e (.inl he) operand (by simp +contextual)
    rw [hstar, ← Counted.tokens_elim] at hats
    exact ⟨ats, none, (hword.reads_distinct.append hats).count, hargument, .none⟩
  | some f =>
    cases hs : s.features.countFilter with
    | true =>
      rw [Expr.draftOption, Draft.count_filtered hs hw.count_argument] at hw
      obtain ⟨count, condition, hcount, hcondition, rfl⟩ := hw.append
      obtain ⟨inner, hinner, rfl⟩ := hcount.bracket
      obtain ⟨test, htest, rfl⟩ := hcondition.bracket
      obtain ⟨word, operand, hword, hoperand, rfl⟩ := hinner.append
      obtain ⟨fts, hfts, hfilter⟩ := hread f (.inr rfl) test (by simp +contextual) htest
      obtain ⟨ats, hats, hargument⟩ := Expr.exists_reads_getD hoperand fun e he =>
        hread e (.inl he) operand (by simp +contextual)
      rw [hstar, ← Counted.tokens_elim] at hats
      have hfilterReads := hfts.bracket "FILTER (WHERE"
      rw [hwhere] at hfilterReads
      refine ⟨ats, some fts, ?_, hargument, .some hfilter⟩
      have hboth := (hword.reads_distinct.append hats).count.append hfilterReads
      simpa [Count.form, hs, Count.filtering, Count.tokens] using hboth
    | false =>
      rw [Expr.draftOption, Draft.count_guarded hs hw.count_argument] at hw
      obtain ⟨inner, hinner, rfl⟩ := hw.bracket
      obtain ⟨word, guarded, hword, hguarded, rfl⟩ := hinner.append
      obtain ⟨front, last, hfront, hlast, rfl⟩ := hguarded.append
      obtain ⟨condition, result, hcondition, hresult, rfl⟩ := hfront.append
      obtain ⟨case, test, hcase, htest, rfl⟩ := hcondition.append
      obtain ⟨before, operand, hbefore, hoperand, rfl⟩ := hresult.append
      obtain ⟨fts, hfts, hfilter⟩ := hread f (.inr rfl) test (by simp +contextual) htest
      obtain ⟨ats, hats, hargument⟩ := Expr.exists_reads_getD hoperand fun e he =>
        hread e (.inl he) operand (by simp +contextual)
      rw [hone] at hats
      have hcaseReads : Reads free case _ := hcase.reads_word (by decide +kernel)
      have hthenReads : Reads free before _ := hbefore.reads_word (by decide +kernel)
      have hendReads : Reads free last _ := hlast.reads_word (by decide +kernel)
      have hguardedReads :=
        ((hcaseReads.append hfts).append (hthenReads.append hats)).append hendReads
      refine ⟨ats, some fts, ?_, hargument, .some hfilter⟩
      have hcount := (hword.reads_distinct.append hguardedReads).count
      simpa [Count.form, hs, Count.guarding, Count.tokens, Counted.tokens] using hcount

end Written

end PreparedSql
