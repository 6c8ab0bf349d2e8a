import Mathlib.Data.List.Forall2
import PreparedSql.Proofs.Draft.Neatness
import PreparedSql.Proofs.Template.Steps

/-!
# Reading what an execution writes

An execution writes texts, delimiters and markers. This module says which tokens
of SQL a reader sees in them. Texts are read by their wording: `AND` is a
connective, `NOT (` is a negation and a parenthesis, and a text that is not a word
of the language is a name, a literal or, with a parenthesis at its end, the
beginning of a call. What fills a hole is read as one operand, whatever it is.

Without quotes around names, a column may be called `AND`, and its wording does
not tell. `Reads` therefore has a parameter: where it is true, names may be read
as the names that they are. Where it is false, there is a single reading.

`Closed` says that brackets pair up and what stands outside of them. A scan for a
token outside of brackets passes over closed tokens.
-/

namespace PreparedSql

/-- What stands between two operands. -/
inductive Connective where
  | or
  | and
  | like (negated : Bool)
  | binary (op : BinaryOp)
deriving DecidableEq, Repr

/-- Operators of greater strength are applied first. -/
def BinaryOp.strength : BinaryOp → Nat
  | .eq | .ne | .lt | .le | .gt | .ge => 4
  | .add | .sub => 5
  | .mul | .div => 6

def Connective.strength : Connective → Nat
  | .or => 1
  | .and => 2
  | .like _ => 4
  | .binary op => op.strength

/-- An operand of a single token. -/
inductive Leaf where
  /-- A name or a literal. -/
  | word (s : String)
  /-- A number in a test that stands for a truth value. -/
  | number (n : Nat)
  | slot (s : Slot)
  /-- A text that came with the arguments. -/
  | supplied (s : String)
deriving DecidableEq, Repr

inductive Token where
  | leaf (l : Leaf)
  | connective (c : Connective)
  | not
  | isNull (negated : Bool)
  /-- `IN` with its opening parenthesis. -/
  | isIn
  /-- `EXISTS` with its opening parenthesis. -/
  | existsRow
  /-- The name of a function with its opening parenthesis. -/
  | call (name : String)
  | opening
  | closing
  | comma
  | select
  | setOp (op : SetOp)
deriving DecidableEq, Repr

namespace Token

def opens : Token → Bool
  | .isIn | .existsRow | .call _ | .opening => true
  | _ => false

def isBracket (t : Token) : Bool := t.opens || t == .closing

/-- The comparison of two numbers, which stands for a truth value. -/
def comparison (m n : Nat) : List Token :=
  [.leaf (.number m), .connective (.binary .eq), .leaf (.number n)]

/-- The texts that are words of the language. -/
def wordings : List (String × List Token) :=
  [("OR", [.connective .or]), ("AND", [.connective .and]),
    ("LIKE", [.connective (.like false)]), ("NOT LIKE", [.connective (.like true)]),
    ("=", [.connective (.binary .eq)]), ("<>", [.connective (.binary .ne)]),
    ("<", [.connective (.binary .lt)]), ("<=", [.connective (.binary .le)]),
    (">", [.connective (.binary .gt)]), (">=", [.connective (.binary .ge)]),
    ("+", [.connective (.binary .add)]), ("-", [.connective (.binary .sub)]),
    ("*", [.connective (.binary .mul)]), ("/", [.connective (.binary .div)]),
    ("IS NULL", [.isNull false]), ("IS NOT NULL", [.isNull true]),
    ("1 = 1", comparison 1 1), ("1 = 0", comparison 1 0),
    ("(", [.opening]), (")", [.closing]), ("NOT (", [.not, .opening]), ("IN (", [.isIn]),
    ("EXISTS (", [.existsRow]), ("NOT EXISTS (", [.not, .existsRow]),
    ("FILTER (WHERE", [.call "FILTER ", .leaf (.word "WHERE")]),
    ("SELECT", [.select]), ("SELECT NULL", [.select, .leaf (.word "NULL")]),
    ("UNION", [.setOp .union]), ("UNION ALL", [.setOp .unionAll]),
    ("INTERSECT", [.setOp .intersect]), ("EXCEPT", [.setOp .except])]

/-- A text that is no word of the language. -/
def ofOther (s : String) : Token :=
  if s.toList.getLast? = some '(' then .call (String.ofList s.toList.dropLast)
  else .leaf (.word s)

/-- The tokens of a text. -/
def ofText (s : String) : List Token := (wordings.lookup s).getD [ofOther s]

def ofDelimiter (s : String) : List Token := if s = "," then [.comma] else []

/-- The tokens of what a repetition writes between two rows. -/
def ofSeparator (s : String) : List Token :=
  if s = " OR " then [.connective .or]
  else if s = ", " then [.comma]
  else if s = " UNION ALL " then [.setOp .unionAll]
  else []

/-- Whether a text ends in a quote. -/
def quoted (s : String) : Bool :=
  s.toList.getLast?.any fun c => c == '"' || c == '\x60' || c == '\''

/-- Whether a text consists of the characters of a number, not all of them signs. -/
def numeric (s : String) : Bool :=
  s.toList.all (fun c => c.isDigit || c == '.' || c == '-') && s.toList.any (· != '-')

/-- No two words of the language are spelled alike. -/
theorem ofText_of_mem {s : String} {ts : List Token} (h : (s, ts) ∈ wordings) : ofText s = ts := by
  have hall : ∀ w ∈ wordings, ofText w.1 = w.2 := by decide +kernel
  exact hall (s, ts) h

/-- A text with a mark that no word of the language has. -/
theorem lookup_wordings_of {mark : String → Bool} {s : String} (hs : mark s = true)
    (h : wordings.all (fun w => !mark w.1) = true) : wordings.lookup s = none := by
  rw [List.lookup_eq_none_iff]
  intro w hw
  rw [List.all_eq_true] at h
  have hmark := h w hw
  rw [bne_iff_ne]
  rintro rfl
  simp [hs] at hmark

theorem ofText_of_quoted {s : String} (hs : quoted s = true) : ofText s = [.leaf (.word s)] := by
  have hlookup := lookup_wordings_of hs (by decide +kernel)
  rw [ofText, hlookup, Option.getD_none, ofOther, if_neg]
  intro hlast
  simp [quoted, hlast] at hs

theorem ofText_of_numeric {s : String} (hs : numeric s = true) : ofText s = [.leaf (.word s)] := by
  have hlookup := lookup_wordings_of hs (by decide +kernel)
  rw [ofText, hlookup, Option.getD_none, ofOther, if_neg]
  intro hlast
  simp only [numeric, Bool.and_eq_true, List.all_eq_true] at hs
  exact absurd (hs.1 _ (List.mem_of_getLast? hlast)) (by decide)

theorem quoted_ofList (cs : List Char) {c : Char} (hc : c = '"' ∨ c = '\x60' ∨ c = '\'') :
    quoted (String.ofList (cs ++ [c])) = true := by
  simp [quoted, hc, or_assoc]

theorem quoted_quote {q : QuoteMark} (hq : q ≠ .plain) (name : String) :
    quoted (q.quote name) = true := by
  cases q with
  | plain => exact absurd rfl hq
  | double => exact quoted_ofList (_ :: _) (by decide)
  | backtick => exact quoted_ofList (_ :: _) (by decide)

theorem quoted_append (s : String) {t : String} (ht : quoted t = true) :
    quoted (s ++ t) = true := by
  unfold quoted at ht ⊢
  cases hlast : t.toList.getLast? with
  | none => simp [hlast] at ht
  | some c =>
    rw [hlast] at ht
    simpa [List.getLast?_append, hlast] using ht

/-- The digits of a number, with a point among them or without. -/
theorem isDigit_of_mem_positional {d : Decimal.Digits} {c : Char} (h : c ∈ d.positional) :
    c.isDigit = true ∨ c = '.' := by
  have hdigits : ∀ c ∈ Nat.toDigits 10 d.digits, c.isDigit = true := fun c hc =>
    Nat.isDigit_of_mem_toDigits (by decide) (by decide) hc
  simp only [Decimal.Digits.positional] at h
  split at h
  · rcases List.mem_append.1 h with h | h
    · exact .inl (hdigits c h)
    · exact .inl (by rw [List.eq_of_mem_replicate h]; decide)
  · split at h
    · rcases List.mem_append.1 h with h | h
      · exact .inl (hdigits c (List.mem_of_mem_take h))
      · rcases List.mem_cons.1 h with rfl | h
        · exact .inr rfl
        · exact .inl (hdigits c (List.mem_of_mem_drop h))
    · rcases List.mem_append.1 h with h | h
      · rcases List.mem_cons.1 h with rfl | h
        · exact .inl (by decide)
        · rcases List.mem_cons.1 h with rfl | h
          · exact .inr rfl
          · exact .inl (by rw [List.eq_of_mem_replicate h]; decide)
      · exact .inl (hdigits c h)

theorem numeric_natToString (n : Nat) : numeric (toString n) = true := by
  obtain ⟨c, hc⟩ := List.exists_mem_of_ne_nil _ (Text.numeral_ne_nil n)
  simp only [numeric, Bool.and_eq_true, List.all_eq_true, List.any_eq_true]
  refine ⟨fun c hc => by simp [Text.isDigit_of_mem_numeral hc], c, hc, ?_⟩
  have hdigit := Text.isDigit_of_mem_numeral hc
  rw [bne_iff_ne]
  rintro rfl
  exact absurd hdigit (by decide)

theorem numeric_intToString (n : Int) : numeric (toString n) = true := by
  cases n with
  | ofNat n => exact numeric_natToString n
  | negSucc n =>
    have h := numeric_natToString (n + 1)
    have hneg : toString (Int.negSucc n) = "-" ++ toString (n + 1) := rfl
    rw [hneg]
    simp only [numeric, Bool.and_eq_true, String.toList_append, List.all_append,
      List.any_append, Bool.or_eq_true] at h ⊢
    exact ⟨⟨by decide, h.1⟩, .inr h.2⟩

theorem numeric_double {x : Double} (hx : x.isFinite = true) :
    numeric (Literal.double x) = true := by
  have htext : ∀ c ∈ x.text.toList, (c.isDigit || c == '.' || c == '-') = true := by
    intro c hc
    rw [Double.text, if_pos hx, String.toList_ofList, List.mem_append] at hc
    rcases hc with hc | hc
    · unfold Double.sign at hc
      split at hc <;> simp_all
    · rcases isDigit_of_mem_positional hc with h | rfl
      · simp [h]
      · decide
  unfold Literal.double
  simp only [numeric, Bool.and_eq_true, List.all_eq_true, List.any_eq_true]
  split
  · next hpoint => exact ⟨htext, '.', by simpa using hpoint, by decide⟩
  · refine ⟨?_, '.', by simp, by decide⟩
    intro c hc
    rw [String.toList_append, List.mem_append] at hc
    rcases hc with hc | hc
    · exact htext c hc
    · obtain rfl | rfl : c = '.' ∨ c = '0' := by simpa using hc
      all_goals decide

/-- Literals are words for null and the truth values, numbers, or texts and bytes in quotes. -/
theorem of_literal {P : String → Prop} {d : Dialect} {v : Value} {w : String}
    (h : v.literal d = .ok w) (word : ∀ w ∈ ["NULL", "TRUE", "FALSE", "1", "0"], P w)
    (number : ∀ w, numeric w = true → P w) (text : ∀ s, P (String.ofList (Literal.text d s)))
    (bytes : ∀ b, P (String.ofList (Literal.bytes d b))) : P w := by
  cases v with
  | null =>
    cases h
    exact word _ (by decide)
  | bool b =>
    cases h
    exact word _ (by cases d <;> cases b <;> decide)
  | int32 n =>
    cases h
    exact number _ (numeric_intToString _)
  | int64 n =>
    cases h
    exact number _ (numeric_intToString _)
  | double x =>
    simp only [Value.literal] at h
    split at h
    · next hx =>
      cases h
      exact number _ (numeric_double hx)
    · cases h
  | text s =>
    cases h
    exact text s.toList
  | bytes b =>
    cases h
    exact bytes b

theorem quoted_text (d : Dialect) (s : List Char) :
    quoted (String.ofList (Literal.text d s)) = true :=
  quoted_ofList (_ :: _) (by decide)

theorem quoted_bytes (d : Dialect) (b : List UInt8) :
    quoted (String.ofList (Literal.bytes d b)) = true :=
  quoted_ofList _ (by decide)

/-- The literal of a value is no word of the language. -/
theorem ofText_literal {d : Dialect} {v : Value} {w : String} (h : v.literal d = .ok w) :
    ofText w = [.leaf (.word w)] :=
  of_literal h (by decide +kernel) (fun _ => ofText_of_numeric)
    (fun s => ofText_of_quoted (quoted_text d s)) fun b => ofText_of_quoted (quoted_bytes d b)

theorem ofText_quote {q : QuoteMark} (hq : q ≠ .plain) (name : String) :
    ofText (q.quote name) = [.leaf (.word (q.quote name))] :=
  ofText_of_quoted (quoted_quote hq name)

theorem ofText_column {q : QuoteMark} (hq : q ≠ .plain) (table name : String) :
    ofText (q.column table name) = [.leaf (.word (q.column table name))] :=
  ofText_of_quoted (quoted_append _ (quoted_quote hq name))

/-- Whatever a function is called, its text ends in an opening bracket. -/
theorem exists_ofText_function (name : String) :
    ∃ before o, ofText (name ++ "(") = before ++ [o] ∧ o.opens = true ∧ ∀ t ∈ before, t = .not := by
  have hlast : (name ++ "(").toList.getLast? = some '(' := by simp
  cases hlookup : wordings.lookup (name ++ "(") with
  | none =>
    refine ⟨[], .call name, ?_, rfl, by simp⟩
    simp [ofText, hlookup, ofOther]
  | some ts =>
    obtain ⟨before, after, htable, -⟩ := List.lookup_eq_some_iff.1 hlookup
    have hmem : (name ++ "(", ts) ∈ wordings := by simp [htable]
    have hall : wordings.all (fun w => w.1.toList.getLast? != some '(' ||
        (w.2.getLast?.any opens && w.2.dropLast.all (· == .not))) = true := by decide +kernel
    have hshape := List.all_eq_true.1 hall _ hmem
    simp only [hlast, bne_self_eq_false, Bool.false_or, Bool.and_eq_true, List.all_eq_true,
      beq_iff_eq] at hshape
    cases hts : ts.getLast? with
    | none => simp [hts] at hshape
    | some o =>
      obtain ⟨first, rfl⟩ := List.getLast?_eq_some_iff.1 hts
      refine ⟨first, o, ?_, by simpa using hshape.1, by simpa using hshape.2⟩
      rw [ofText, hlookup, Option.getD_some]

end Token

/-- What the steps of an execution are read as. If `free`, then a text may also be
read as the name or the function that it spells. -/
inductive Reads (free : Prop) : List Step → List Token → Prop where
  | nil : Reads free [] []
  | text {steps ts} (s : String) : Reads free steps ts →
      Reads free (.token s :: steps) (Token.ofText s ++ ts)
  | name {steps ts} (s : String) : free → Reads free steps ts →
      Reads free (.token s :: steps) (.leaf (.word s) :: ts)
  | function {steps ts} (name : String) : free → Reads free steps ts →
      Reads free (.token (name ++ "(") :: steps) (.call name :: ts)
  | delimiter {steps ts} (s : String) (kind : DelimiterKind) : Reads free steps ts →
      Reads free (.delimiter s kind :: steps) (Token.ofDelimiter s ++ ts)
  | supplied {steps ts} (s : String) (glued : Bool) : Reads free steps ts →
      Reads free (.gap :: .write s :: .settle glued :: steps) (.leaf (.supplied s) :: ts)
  | marker {steps ts} (m : Marker) (glued : Bool) : Reads free steps ts →
      Reads free (.gap :: .marker m :: .settle glued :: steps) (.leaf (.slot m.slot) :: ts)
  | missing {steps ts} (what : Missing) (glued : Bool) : Reads free steps ts →
      Reads free (.gap :: .missing what :: .settle glued :: steps) ts
  | between {steps ts} (s : String) : Reads free steps ts →
      Reads free (.write s :: .fresh :: steps) (Token.ofSeparator s ++ ts)
  | enter {steps ts} : Reads free steps ts → Reads free (.enter :: steps) ts
  | exit {steps ts} : Reads free steps ts → Reads free (.exit :: steps) ts
  | settle {steps ts} (glued : Bool) : Reads free steps ts → Reads free (.settle glued :: steps) ts
  /-- A repetition starts. -/
  | start {steps ts} : Reads free steps ts → Reads free (.gap :: .fresh :: steps) ts

namespace Reads

variable {free : Prop} {steps more : List Step} {ts us : List Token}

theorem append (h : Reads free steps ts) (h' : Reads free more us) :
    Reads free (steps ++ more) (ts ++ us) := by
  induction h with
  | nil => exact h'
  | text s _ ih =>
    rw [List.append_assoc]
    exact .text s ih
  | name s hfree _ ih => exact .name s hfree ih
  | function name hfree _ ih => exact .function name hfree ih
  | delimiter s kind _ ih =>
    rw [List.append_assoc]
    exact .delimiter s kind ih
  | supplied s glued _ ih => exact .supplied s glued ih
  | marker m glued _ ih => exact .marker m glued ih
  | missing what glued _ ih => exact .missing what glued ih
  | between s _ ih =>
    rw [List.append_assoc]
    exact .between s ih
  | enter _ ih => exact .enter ih
  | exit _ ih => exact .exit ih
  | settle glued _ ih => exact .settle glued ih
  | start _ ih => exact .start ih

theorem mono {free' : Prop} (h : Reads free steps ts) (hfree : free → free') :
    Reads free' steps ts := by
  induction h with
  | nil => exact .nil
  | text s _ ih => exact .text s ih
  | name s h _ ih => exact .name s (hfree h) ih
  | function name h _ ih => exact .function name (hfree h) ih
  | delimiter s kind _ ih => exact .delimiter s kind ih
  | supplied s glued _ ih => exact .supplied s glued ih
  | marker m glued _ ih => exact .marker m glued ih
  | missing what glued _ ih => exact .missing what glued ih
  | between s _ ih => exact .between s ih
  | enter _ ih => exact .enter ih
  | exit _ ih => exact .exit ih
  | settle glued _ ih => exact .settle glued ih
  | start _ ih => exact .start ih

/-- A text is read by its wording. -/
theorem wording (s : String) : Reads free [.token s] (Token.ofText s) := by
  simpa using Reads.text s (Reads.nil : Reads free [] [])

theorem of_text {w : String} (h : Token.ofText w = ts) : Reads free [.token w] ts :=
  h ▸ .wording w

/-- What stands between an opening and a closing parenthesis. -/
theorem bracket (opening : String) (h : Reads free steps ts) :
    Reads free (.token opening :: steps ++ [.token ")"])
      (Token.ofText opening ++ ts ++ [.closing]) := by
  have hclosing : Token.ofText ")" = [.closing] := by decide +kernel
  rw [← hclosing]
  exact ((wording opening).append h).append (wording ")")

/-- A text that is no word of the language, or is taken for a name. -/
theorem word {s : String} (h : ¬free → Token.ofText s = [.leaf (.word s)]) :
    Reads free [.token s] [.leaf (.word s)] := by
  by_cases hfree : free
  · exact .name s hfree .nil
  · rw [← h hfree]
    exact wording s

/-- Pieces with something between. -/
theorem intercalate {between : List Step} {sep : List Token} {pieces : List (List Step)}
    {tss : List (List Token)} (hbetween : Reads free between sep)
    (h : List.Forall₂ (Reads free) pieces tss) :
    Reads free (List.intercalate between pieces) (List.intercalate sep tss) := by
  induction h with
  | nil => exact .nil
  | cons hfirst hrest ih =>
    cases hrest with
    | nil => simpa using hfirst
    | cons _ _ =>
      rw [List.intercalate_cons_cons, List.intercalate_cons_cons]
      exact (hfirst.append hbetween).append ih

/-- The rows of a repetition, after something that starts a row. -/
theorem rows_after {rows : List (List Cell)} {between : String}
    {inner : Nat → List Cell → List Step} {tokens : Nat → List Cell → List Token}
    (hne : rows ≠ [])
    (hrows : ∀ i cells, rows[i]? = some cells → Reads free (inner i cells) (tokens i cells))
    {lead : List Step} {first : List Token}
    (hlead : ∀ {steps ts}, Reads free steps ts →
      Reads free (lead ++ .fresh :: steps) (first ++ ts)) :
    Reads free
      (lead ++ List.intercalate [.write between]
        (rows.mapIdx fun i cells => .fresh :: inner i cells))
      (first ++ List.intercalate (Token.ofSeparator between) (rows.mapIdx tokens)) := by
  induction rows generalizing inner tokens lead first with
  | nil => exact absurd rfl hne
  | cons cells rest ih =>
    have hfirst : Reads free (inner 0 cells) (tokens 0 cells) := hrows 0 cells rfl
    simp only [List.mapIdx_cons]
    by_cases hrest : rest = []
    · subst hrest
      simpa using hlead hfirst
    · have hbetween : ∀ {steps ts}, Reads free steps ts →
          Reads free ([.write between] ++ .fresh :: steps) (Token.ofSeparator between ++ ts) :=
        .between between
      have hnext := ih hrest (fun i next hi => hrows (i + 1) next (by simpa using hi)) hbetween
      rw [List.intercalate_cons_of_ne_nil (by simpa using hrest),
        List.intercalate_cons_of_ne_nil (by simpa using hrest)]
      simpa using hlead (hfirst.append hnext)

/-- The rows of a repetition are read one after the other. -/
theorem rows {rows : List (List Cell)} {between : String} {inner : Nat → List Cell → List Step}
    {tokens : Nat → List Cell → List Token} (hne : rows ≠ [])
    (hrows : ∀ i cells, rows[i]? = some cells → Reads free (inner i cells) (tokens i cells)) :
    Reads free
      (.gap :: List.intercalate [.write between]
        (rows.mapIdx fun i cells => .fresh :: inner i cells) ++ [.settle false])
      (List.intercalate (Token.ofSeparator between) (rows.mapIdx tokens)) := by
  have hlead : ∀ {steps ts}, Reads free steps ts →
      Reads free ([.gap] ++ .fresh :: steps) ([] ++ ts) := .start
  simpa using (rows_after hne hrows hlead).append (.settle false .nil)

/-- By its wording alone, what is written is read in one way. -/
theorem unique (hfree : ¬free) (h : Reads free steps ts) (h' : Reads free steps us) : ts = us := by
  induction h generalizing us with
  | nil =>
    cases h'
    rfl
  | text s _ ih =>
    cases h' with
    | text _ h' => rw [ih h']
    | name _ h _ => exact absurd h hfree
    | function _ h _ => exact absurd h hfree
  | name _ h _ _ => exact absurd h hfree
  | function _ h _ _ => exact absurd h hfree
  | delimiter s kind _ ih =>
    cases h' with
    | delimiter _ _ h' => rw [ih h']
  | supplied s glued _ ih =>
    cases h' with
    | supplied _ _ h' => rw [ih h']
  | marker m glued _ ih =>
    cases h' with
    | marker _ _ h' => rw [ih h']
  | missing what glued _ ih =>
    cases h' with
    | missing _ _ h' => rw [ih h']
  | between s _ ih =>
    cases h' with
    | between _ h' => rw [ih h']
  | enter _ ih =>
    cases h' with
    | enter h' => exact ih h'
  | exit _ ih =>
    cases h' with
    | exit h' => exact ih h'
  | settle glued _ ih =>
    cases h' with
    | settle _ h' => exact ih h'
  | start _ ih =>
    cases h' with
    | start h' => exact ih h'

end Reads

end PreparedSql
