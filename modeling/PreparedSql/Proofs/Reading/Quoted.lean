import PreparedSql.Proofs.Layout.Ink
import PreparedSql.Template.Fill

/-!
# Reading quoted names

A reader finds the end of a quoted text by its quotes alone: two in a row stand for one inside the
text, and a single one ends it. In some texts a backslash also takes the next character with it, so
that a quote behind a backslash does not end the text either.

Whatever a text holds, writing its special characters twice makes the reader stop where the text was
meant to end, provided that no further quote follows there. A name is therefore read back together
with what stands behind it, and a dot behind its closing quote is never taken for a part of it.
-/

namespace PreparedSql

namespace Text

/-- Reads on inside a quoted text: what is left of the text, and what follows its closing quote.
Where a backslash is no ordinary character, `escape` says what it makes of the next one. -/
def readInside (quote : Char) (escape : Option (Char → List Char)) :
    List Char → Option (List Char × List Char)
  | [] => none
  | [c] => if c = quote then some ([], []) else none
  | c :: next :: rest =>
    if c = quote then
      if next = quote then (readInside quote escape rest).map fun r => (quote :: r.1, r.2)
      else some ([], next :: rest)
    else
      match escape with
      | none => (readInside quote none (next :: rest)).map fun r => (c :: r.1, r.2)
      | some value =>
        if c = '\\' then (readInside quote (some value) rest).map fun r => (value next ++ r.1, r.2)
        else (readInside quote (some value) (next :: rest)).map fun r => (c :: r.1, r.2)

/-- Reads a quoted text from its opening quote on. -/
def readQuoted (quote : Char) (escape : Option (Char → List Char)) :
    List Char → Option (List Char × List Char)
  | [] => none
  | c :: rest => if c = quote then readInside quote escape rest else none

section Reading

variable {quote c : Char} {escape : Option (Char → List Char)} {rest : List Char}

/-- A quote that no other quote follows ends the text. -/
theorem readInside_end (h : rest.head? ≠ some quote) :
    readInside quote escape (quote :: rest) = some ([], rest) := by
  cases rest with
  | nil => simp [readInside]
  | cons next rest =>
    have hnext : next ≠ quote := by simpa using h
    simp [readInside, hnext]

theorem readInside_quote_quote (quote : Char) (escape : Option (Char → List Char))
    (rest : List Char) :
    readInside quote escape (quote :: quote :: rest) =
      (readInside quote escape rest).map fun r => (quote :: r.1, r.2) := by
  simp [readInside]

theorem readInside_escape {value : Char → List Char} (hquote : quote ≠ '\\') (next : Char)
    (rest : List Char) :
    readInside quote (some value) ('\\' :: next :: rest) =
      (readInside quote (some value) rest).map fun r => (value next ++ r.1, r.2) := by
  simp [readInside, hquote.symm]

/-- Any other character stands for itself. -/
theorem readInside_cons (hquote : c ≠ quote) (hescape : c = '\\' → escape = none)
    (rest : List Char) :
    readInside quote escape (c :: rest) =
      (readInside quote escape rest).map fun r => (c :: r.1, r.2) := by
  cases rest with
  | nil => simp [readInside, hquote]
  | cons next rest =>
    cases escape with
    | none => simp [readInside, hquote]
    | some value =>
      have hslash : c ≠ '\\' := fun h => absurd (hescape h) (by simp)
      simp [readInside, hquote, hslash]

/-- Doubling the quote, and the backslash where it escapes, makes the reader find the text again and
stop at its end. The induction is over the text: the reader is between two characters of it
whenever it has consumed what stands for the characters before. -/
theorem readQuoted_double {special : Char → Bool} (hquote : quote ≠ '\\')
    (hspecial : ∀ c, special c = true ↔ c = quote ∨ c = '\\' ∧ escape.isSome = true)
    (hescape : ∀ value ∈ escape, value '\\' = ['\\']) (s : List Char)
    (hrest : rest.head? ≠ some quote) :
    readQuoted quote escape (quote :: double special s ++ [quote] ++ rest) = some (s, rest) := by
  have hinside : readInside quote escape (double special s ++ quote :: rest) = some (s, rest) := by
    induction s with
    | nil => exact readInside_end hrest
    | cons c s ih =>
      by_cases hc : c = quote
      · subst hc
        have hdouble : double special (c :: s) = c :: c :: double special s :=
          if_pos ((hspecial c).2 (.inl rfl))
        rw [hdouble, List.cons_append, List.cons_append, readInside_quote_quote, ih]
        rfl
      · by_cases hslash : c = '\\' ∧ escape.isSome = true
        · obtain ⟨rfl, hsome⟩ := hslash
          obtain ⟨value, rfl⟩ := Option.isSome_iff_exists.1 hsome
          have hdouble : double special ('\\' :: s) = '\\' :: '\\' :: double special s :=
            if_pos ((hspecial '\\').2 (.inr ⟨rfl, hsome⟩))
          rw [hdouble, List.cons_append, List.cons_append, readInside_escape hquote, ih,
            hescape value rfl]
          rfl
        · have hdouble : double special (c :: s) = c :: double special s := by
            refine if_neg fun h => ?_
            exact ((hspecial c).1 h).elim hc hslash
          have hplain : c = '\\' → escape = none := by
            intro h
            simpa [h] using hslash
          rw [hdouble, List.cons_append, readInside_cons hc hplain, ih]
          rfl
  simpa [readQuoted] using hinside

end Reading

end Text

namespace QuoteMark

open Text (readQuoted)

/-- Reads an identifier in quotes. -/
def readName (quote : Char) (text : List Char) : Option (List Char × List Char) :=
  readQuoted quote none text

/-- Reads two identifiers in quotes with a dot between. -/
def readPair (quote : Char) (text : List Char) :
    Option ((List Char × List Char) × List Char) :=
  match readName quote text with
  | some (first, '.' :: text) =>
    (readName quote text).map fun r => ((first, r.1), r.2)
  | _ => none

/-- `c` is the quote character of `q`. -/
inductive Uses : QuoteMark → Char → Prop where
  | double : Uses .double '"'
  | backtick : Uses .backtick '\x60'

variable {q : QuoteMark} {c : Char} {rest : List Char}

theorem Uses.char? (h : q.Uses c) : q.char? = some c := by
  cases h <;> rfl

theorem Uses.ne_backslash (h : q.Uses c) : c ≠ '\\' := by
  cases h <;> decide

theorem Uses.ne_dot (h : q.Uses c) : c ≠ '.' := by
  cases h <;> decide

theorem Uses.ne_closing (h : q.Uses c) : c ≠ ')' := by
  cases h <;> decide

theorem toList_quote (h : q.Uses c) (name : String) :
    (q.quote name).toList = c :: Text.double (· == c) name.toList ++ [c] := by
  simp [quote, quoteChars, h.char?]

theorem readName_quote (h : q.Uses c) (name : String) (hrest : rest.head? ≠ some c) :
    readName c ((q.quote name).toList ++ rest) = some (name.toList, rest) := by
  rw [toList_quote h, readName]
  exact Text.readQuoted_double h.ne_backslash (by simp) (by simp) name.toList hrest

/-- The dot behind a closing quote is no part of the name. -/
theorem readPair_quote (h : q.Uses c) (first second : String) (hrest : rest.head? ≠ some c) :
    readPair c ((q.quote first).toList ++ '.' :: (q.quote second).toList ++ rest) =
      some ((first.toList, second.toList), rest) := by
  have hdot : ('.' :: ((q.quote second).toList ++ rest)).head? ≠ some c := by
    simpa using h.ne_dot.symm
  have hfirst := readName_quote h first hdot
  have hsecond := readName_quote h second hrest
  rw [List.append_assoc, List.cons_append, readPair, hfirst]
  simp [hsecond]

theorem readPair_column (h : q.Uses c) (table name : String) (hrest : rest.head? ≠ some c) :
    readPair c ((q.column table name).toList ++ rest) =
      some ((table.toList, name.toList), rest) := by
  have htext : (q.column table name).toList =
      (q.quote table).toList ++ '.' :: (q.quote name).toList := by
    simp [column]
  rw [htext]
  exact readPair_quote h table name hrest

end QuoteMark

/-! ## Qualified names on a page -/

/-- A token attaches to a qualifying name, unless it is a closing parenthesis. -/
theorem Page.token_settle_ink {c : Char} {s : String} (p : Page) (hs : s.toList.head? = some c)
    (hc : c ≠ ')') : ((p.settle true).token s).ink = s.toList.reverse ++ p.ink := by
  cases hlist : s.toList with
  | nil => simp [hlist] at hs
  | cons first rest =>
    obtain rfl : first = c := by simpa [hlist] using hs
    simp [token, hlist, makeRoom, settle, hc]

/-- The physical name that an execution gives to what qualifies a name. -/
def Hole.physicalName? (a : Arguments) : Hole → Option String
  | .schema s => some (a.schema s.name)
  | .catalog c => some (a.catalog c.name)
  | .param _ _ | .inline _ | .typeId _ => none

theorem Hole.step_of_physicalName {a : Arguments} {h : Hole} {name : String}
    (hname : h.physicalName? a = some name) (q : QuoteMark) :
    h.step a q = .write (q.qualifier name) ∧ h.qualifies = true := by
  cases h with
  | schema s | catalog s =>
    cases hname
    exact ⟨rfl, rfl⟩
  | param p name' => cases hname
  | inline key => cases hname
  | typeId t => cases hname

namespace QuoteMark

variable {q : QuoteMark} {c : Char}

/-- What an execution writes for a qualifying name and the name that it qualifies, wherever on a
page they stand. -/
theorem actAll_qualified (h : q.Uses c) {a : Arguments} {hole : Hole} {name : String}
    (hname : hole.physicalName? a = some name) (row : Option RowAt) (table : String)
    (pretty : Bool) (spell : Marker → String) (p : Page) :
    (Step.actAll pretty spell p
        (Fragment.walkAll a q row [.hole hole, .text (q.quote table)])).ink =
      ((q.qualifier name).toList ++ (q.quote table).toList).reverse ++ p.gap.ink := by
  obtain ⟨hstep, hqualifies⟩ := Hole.step_of_physicalName hname q
  have hwalk : Fragment.walkAll a q row [.hole hole, .text (q.quote table)] =
      [.gap, .write (q.qualifier name), .settle true, .token (q.quote table)] := by
    simp [Fragment.walkAll, Fragment.walk, hstep, hqualifies]
  have hhead : (q.quote table).toList.head? = some c := by
    rw [toList_quote h]
    rfl
  rw [hwalk]
  simp only [Step.actAll_cons, Step.actAll_nil, Step.act]
  rw [Page.token_settle_ink _ hhead h.ne_closing, Page.write_ink, List.reverse_append,
    List.append_assoc]

/-- Quoted names are read back, whatever they hold and whatever follows but a quote: a name by
itself, a column behind the name of its table, and a table behind the physical name of its schema or
catalog, as an execution writes the two anywhere on a page. An empty physical name qualifies
nothing. -/
theorem names_read_back (h : q.Uses c) :
    (∀ (name : String) (rest : List Char), rest.head? ≠ some c →
      readName c ((q.quote name).toList ++ rest) = some (name.toList, rest)) ∧
    (∀ (table name : String) (rest : List Char), rest.head? ≠ some c →
      readPair c ((q.column table name).toList ++ rest) =
        some ((table.toList, name.toList), rest)) ∧
    (∀ (a : Arguments) (hole : Hole) (name table : String) (row : Option RowAt) (pretty : Bool)
      (spell : Marker → String) (p : Page), hole.physicalName? a = some name →
        ∃ written : List Char,
          (Step.actAll pretty spell p
              (Fragment.walkAll a q row [.hole hole, .text (q.quote table)])).ink =
            written.reverse ++ p.gap.ink ∧
          ∀ rest : List Char, rest.head? ≠ some c →
            if name = "" then readName c (written ++ rest) = some (table.toList, rest)
            else readPair c (written ++ rest) = some ((name.toList, table.toList), rest)) := by
  refine ⟨fun name rest => readName_quote h name, fun table name rest => readPair_column h table name,
    ?_⟩
  intro a hole name table row pretty spell p hname
  refine ⟨_, actAll_qualified h hname row table pretty spell p, fun rest hrest => ?_⟩
  split
  · next hempty =>
    subst hempty
    exact readName_quote h table hrest
  · next hne =>
    have hqualifier : (q.qualifier name).toList = (q.quote name).toList ++ ['.'] := by
      simp [qualifier, hne]
    have hpair := readPair_quote h name table hrest
    simpa [hqualifier] using hpair

/-- Names that hold quotes, dots and parentheses, and end in quotes. The schema's physical name is
such a name too, and what follows the table is a point. -/
theorem names_read_back_odd :
    let a : Arguments := { schema := fun _ => "\"\".(" }
    let hole : Hole := .schema ⟨0, "main", none⟩
    let text := (Step.actAll true (fun _ => "?") (({} : Page).token "FROM")
      (Fragment.walkAll a .double none [.hole hole, .text (double.quote "t\"")])).text
    readName '"' ((double.quote "a\".\"b\"").toList ++ ['.']) =
        some ("a\".\"b\"".toList, ['.']) ∧
      readPair '\x60' ((backtick.column "\x60" ").\x60\x60").toList ++ [' ']) =
        some ((['\x60'], ").\x60\x60".toList), [' ']) ∧
      text = "FROM \"\"\"\"\".(\".\"t\"\"\"" ∧
      ∃ written, text.toList = "FROM ".toList ++ written ∧
        readPair '"' (written ++ ['.']) = some (("\"\".(".toList, "t\"".toList), ['.']) := by
  intro a hole text
  have hdouble := names_read_back Uses.double
  have hbacktick := names_read_back Uses.backtick
  refine ⟨hdouble.1 _ _ (by decide), hbacktick.2.1 _ _ _ (by decide), by decide +kernel, ?_⟩
  obtain ⟨written, hink, hread⟩ := hdouble.2.2 a hole "\"\".(" "t\"" none true (fun _ => "?")
    (({} : Page).token "FROM") rfl
  refine ⟨written, ?_, hread ['.'] (by decide)⟩
  have htext : text.toList = (written.reverse ++ (({} : Page).token "FROM").gap.ink).reverse := by
    rw [← hink]
    exact String.toList_ofList
  rw [htext, List.reverse_append, List.reverse_reverse]
  rfl

end QuoteMark

end PreparedSql
