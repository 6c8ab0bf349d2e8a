import PreparedSql.Literal
import PreparedSql.Proofs.Template.Condensing
import PreparedSql.Proofs.Template.Markers

/-!
# Templates with an open literal

A string literal stands somewhere in a template, and its content is left open. Everything that is
made of the template is then a family, with a member for each content. A family is *uniform* when
its members are the same but for the literal itself: a uniform text is a fixed list of glyphs in
which the literal takes the place of a marker, and a uniform page is one on which such glyphs are
written.

A literal begins and ends with a quote, and a quote is a character like any other to the rules of
spacing. So laying fragments out, condensing them and filling them keep families uniform, and the
texts in the end are fixed pieces with the literal between them.
-/

namespace PreparedSql

/-- The string literal of a content. -/
def Literal.quoted (d : Dialect) (content : String) : String :=
  String.ofList (Literal.text d content.toList)

namespace Literal

variable {d : Dialect}

theorem toList_quoted (content : String) :
    (quoted d content).toList = '\'' :: Text.double (special d) content.toList ++ ['\''] := by
  simp [quoted, text]

theorem solid_quoted (content : String) : Solid (quoted d content) :=
  ⟨'\'', by rw [toList_quoted, List.getLast?_concat], by decide⟩

end Literal

namespace Glyph

/-- The literal of a content, in the place of every marker. -/
def opened (d : Dialect) (content : String) : Marker → String := fun _ => Literal.quoted d content

/-- Stands for the open literal; which marker it is does not matter. -/
def literal : Glyph := .marker ⟨.param ⟨0⟩, "", .null⟩

variable {d : Dialect}

theorem solid_opened {content : String} {gs : List Glyph} :
    ∀ m ∈ markers gs, Solid (opened d content m) :=
  fun _ _ => Literal.solid_quoted content

/-- The character at both ends of a glyph. -/
def edge : Glyph → Char
  | .char c => c
  | .marker _ => '\''

theorem exists_chars_opened (g : Glyph) (content : String) :
    ∃ rest, g.chars (opened d content) = g.edge :: rest := by
  cases g with
  | char c => exact ⟨[], rfl⟩
  | marker m => exact ⟨_, Literal.toList_quoted content⟩

theorem exists_ink_opened (g : Glyph) (gs : List Glyph) (content : String) :
    ∃ rest, ink (opened d content) (g :: gs) = g.edge :: rest := by
  cases g with
  | char c => exact ⟨_, rfl⟩
  | marker m =>
    refine ⟨(Text.double (Literal.special d) content.toList).reverse ++
      '\'' :: ink (opened d content) gs, ?_⟩
    simp [opened, Literal.toList_quoted, edge]

/-- Each glyph shows something. -/
theorem ink_opened_eq_nil {gs : List Glyph} {content : String} :
    ink (opened d content) gs = [] ↔ gs = [] := by
  cases gs with
  | nil => simp
  | cons g gs =>
    obtain ⟨rest, hink⟩ := exists_ink_opened (d := d) g gs content
    simp [hink]

/-- With the spelling of its own markers fixed, every step is blind. -/
theorem blind_act (pretty : Bool) (spell : Marker → String) (step : Step) :
    Blind (step.act pretty spell ·) := by
  cases step with
  | token s => exact Blind.token s
  | delimiter s kind => exact Blind.delimiter pretty s kind
  | enter => exact Blind.enter pretty
  | exit => exact Blind.exit pretty
  | gap => exact Blind.gap
  | write s => exact Blind.write s
  | marker m => exact Blind.write (spell m)
  | settle glued => exact Blind.settle glued
  | fresh => exact Blind.fresh
  | missing what => exact Blind.id

/-- Fixed pieces with the literal between them. -/
theorem exists_pieces (gs : List Glyph) :
    ∃ first rest, ∀ content,
      text (opened d content) gs = (Literal.quoted d content).intercalate (first :: rest) := by
  induction gs with
  | nil => exact ⟨"", [], fun content => by simp [text]⟩
  | cons g gs ih =>
    obtain ⟨first, rest, hrest⟩ := ih
    have hcons (content : String) : text (opened d content) (g :: gs) =
        String.ofList (g.chars (opened d content)) ++ text (opened d content) gs := by
      simp [text, String.ofList_append]
    cases g with
    | char c =>
      refine ⟨String.ofList [c] ++ first, rest, fun content => ?_⟩
      rw [hcons, hrest, String.intercalate_cons_append]
      rfl
    | marker m =>
      refine ⟨"", first :: rest, fun content => ?_⟩
      rw [hcons, hrest, String.intercalate_cons_cons]
      simp [chars, opened]

end Glyph

variable {d : Dialect}

/-! ## Texts and pages -/

/-- Texts that are the same glyphs, up to the open literal. -/
def Text.Uniform (d : Dialect) (t : String → String) : Prop :=
  ∃ gs, ∀ content, t content = Glyph.text (Glyph.opened d content) gs

theorem Text.uniform_const (s : String) : Text.Uniform d fun _ => s :=
  ⟨s.toList.map .char, fun content => by
    apply String.toList_injective
    simp [Glyph.text, Glyph.chars, List.flatMap_map]⟩

theorem Text.uniform_quoted : Text.Uniform d (Literal.quoted d) :=
  ⟨[Glyph.literal], fun content => by simp [Glyph.text, Glyph.literal, Glyph.chars, Glyph.opened]⟩

/-- Pages on which the same glyphs are written, up to the open literal. -/
def Page.Uniform (d : Dialect) (p : String → Page) : Prop :=
  ∃ gs shape, ∀ content, p content = Glyph.page (Glyph.opened d content) gs shape

namespace Page

/-- The page with room for a token that starts with `first`. -/
def withRoom (p : Page) (first : Char) : Page := { p with ink := makeRoom p.tail first p.ink }

/-- A token takes room, writes its text and leaves the tail that its text has. -/
theorem token_eq_write {s : String} {first : Char} {rest : List Char}
    (h : s.toList = first :: rest) (p : Page) :
    p.token s = { (p.withRoom first).write s with
      tail := .ofInk s.toList.reverse, lineStart := false } := by
  have htail (below : List Char) :
      Tail.ofInk (rest.reverse ++ first :: below) = Tail.ofInk (rest.reverse ++ [first]) := by
    cases rest.reverse <;> rfl
  simp only [token, h, withRoom, write, List.reverse_cons, List.append_assoc,
    List.singleton_append, htail]

namespace Uniform

variable {p : String → Page}

theorem start : Uniform d fun _ => {} := ⟨[], {}, fun _ => rfl⟩

theorem blind (h : Uniform d p) {op : Page → Page} (hop : Glyph.Blind op) :
    Uniform d fun content => op (p content) := by
  obtain ⟨gs, shape, hp⟩ := h
  obtain ⟨gs', shape', -, hpage⟩ := hop gs shape
  exact ⟨gs', shape', fun content => by simp only [hp, hpage _ Glyph.solid_opened]⟩

/-- Tokens are spaced by their first and last characters, and these do not depend on the content
of a literal. -/
theorem token (h : Uniform d p) {t : String → String} (ht : Text.Uniform d t) :
    Uniform d fun content => (p content).token (t content) := by
  obtain ⟨text, ht⟩ := ht
  cases text with
  | nil =>
    have hsame (content : String) : (p content).token (t content) = p content := by
      rw [ht]
      rfl
    simpa only [hsame] using h
  | cons g text =>
    have hfirst (content : String) : ∃ rest, (t content).toList = g.edge :: rest := by
      obtain ⟨rest, hchars⟩ := Glyph.exists_chars_opened (d := d) g content
      refine ⟨rest ++ text.flatMap (Glyph.chars (Glyph.opened d content)), ?_⟩
      rw [ht, Glyph.text, String.toList_ofList, List.flatMap_cons, hchars, List.cons_append]
    have hink (content : String) :
        (t content).toList.reverse = Glyph.ink (Glyph.opened d content) (g :: text).reverse := by
      rw [ht, Glyph.text, String.toList_ofList, ← List.reverse_reverse (g :: text),
        ← Glyph.reverse_ink, List.reverse_reverse, List.reverse_reverse]
    -- The last glyph of the text decides on the tail.
    obtain ⟨last, front, hlast⟩ := List.exists_cons_of_ne_nil
      (List.reverse_ne_nil_iff.2 (List.cons_ne_nil g text))
    have htail (content : String) :
        Tail.ofInk (t content).toList.reverse = Tail.ofInk [last.edge] := by
      obtain ⟨rest, hrest⟩ := Glyph.exists_ink_opened (d := d) last front content
      rw [hink, hlast, hrest]
      rfl
    have huniform : Uniform d fun content => (p content).withRoom g.edge :=
      h.blind (Glyph.Blind.makeRoom g.edge)
    obtain ⟨gs, shape, hroom⟩ := huniform
    refine ⟨(g :: text).reverse ++ gs,
      { shape with tail := Tail.ofInk [last.edge], lineStart := false }, fun content => ?_⟩
    obtain ⟨rest, hrest⟩ := hfirst content
    have hpage : (p content).withRoom g.edge = Glyph.page (Glyph.opened d content) gs shape :=
      hroom content
    change (p content).token (t content) = _
    rw [token_eq_write hrest, htail, hpage]
    simp only [Page.write, Glyph.page, hink, Glyph.ink_append]

theorem cleared (h : Uniform d p) : Uniform d fun content => (p content).cleared := by
  obtain ⟨gs, shape, hp⟩ := h
  exact ⟨[], shape, fun content => by simp [hp, Glyph.page, Page.cleared]⟩

theorem text (h : Uniform d p) : Text.Uniform d fun content => (p content).text := by
  obtain ⟨gs, shape, hp⟩ := h
  exact ⟨gs.reverse, fun content => by
    simp only [hp, Page.text, Glyph.page, Glyph.reverse_ink, Glyph.text]⟩

end Uniform

end Page

/-! ## Fragments -/

namespace Fragment

/-- Fragments that are the same but for their texts, and these are uniform. -/
inductive Uniform (d : Dialect) : (String → List Fragment) → Prop where
  | nil : Uniform d fun _ => []
  | text {t fs} : Text.Uniform d t → Uniform d fs →
      Uniform d fun content => .text (t content) :: fs content
  | delimiter {fs} (s : String) (kind : DelimiterKind) : Uniform d fs →
      Uniform d fun content => .delimiter s kind :: fs content
  | group {children fs} (indented : Bool) : Uniform d children → Uniform d fs →
      Uniform d fun content => .group indented (children content) :: fs content
  | hole {fs} (h : Hole) : Uniform d fs → Uniform d fun content => .hole h :: fs content
  | choice {main alternative fs} (key : Key) : Uniform d main → Uniform d alternative →
      Uniform d fs →
      Uniform d fun content => .choice key (main content) (alternative content) :: fs content
  | each {body empty fs} (key : Key) (between : String) : Uniform d body → Uniform d empty →
      Uniform d fs →
      Uniform d fun content => .each key (body content) (empty content) between :: fs content
  | cell {fs} (index : Nat) : Uniform d fs → Uniform d fun content => .cell index :: fs content

namespace Uniform

variable {fs gs : String → List Fragment}

theorem append (hf : Uniform d fs) (hg : Uniform d gs) :
    Uniform d fun content => fs content ++ gs content := by
  induction hf with
  | nil => exact hg
  | text ht _ ih => exact .text ht ih
  | delimiter s kind _ ih => exact .delimiter s kind ih
  | group indented hchildren _ _ ih => exact .group indented hchildren ih
  | hole h _ ih => exact .hole h ih
  | choice key hmain halternative _ _ _ ih => exact .choice key hmain halternative ih
  | each key between hbody hempty _ _ _ ih => exact .each key between hbody hempty ih
  | cell index _ ih => exact .cell index ih

/-- Fragments without the literal are uniform. -/
theorem const (fs : List Fragment) : Uniform d fun _ => fs := by
  induction fs using listInduction with
  | nil => exact .nil
  | text s fs ih => exact .text (Text.uniform_const s) ih
  | delimiter s kind fs ih => exact .delimiter s kind ih
  | group indented children fs inner ih => exact .group indented inner ih
  | hole h fs ih => exact .hole h ih
  | choice key main alternative fs first second ih => exact .choice key first second ih
  | each key body empty between fs first second ih => exact .each key between first second ih
  | cell index fs ih => exact .cell index ih

/-- What a page has collected is nothing for all contents or a text for all. -/
theorem collected {p : String → Page} (h : Page.Uniform d p) :
    Uniform d fun content => (p content).collected := by
  obtain ⟨gs, shape, hp⟩ := h
  by_cases hgs : gs = []
  · have hnil (content : String) : (p content).collected = [] := by
      simp [Page.collected, hp, Glyph.page, hgs]
    simpa only [hnil] using nil
  · have htext (content : String) : (p content).collected = [.text (p content).text] := by
      simp [Page.collected, hp, Glyph.page, Glyph.ink_opened_eq_nil, hgs]
    have huniform : Page.Uniform d p := ⟨gs, shape, hp⟩
    simpa only [htext] using text huniform.text nil

/-- What is condensed from a uniform page, and the page after it, are uniform. -/
def Condenses (d : Dialect) (pretty : Bool) (fs : String → List Fragment) : Prop :=
  ∀ p, Page.Uniform d p →
    (Uniform d fun content => (condenseAll pretty (p content) (fs content)).1) ∧
      Page.Uniform d fun content => (condenseAll pretty (p content) (fs content)).2

variable {pretty : Bool}

theorem Condenses.cons {f : String → Fragment} (hfs : Condenses d pretty fs)
    (hf : ∀ p, Page.Uniform d p →
      (Uniform d fun content => (condense pretty (p content) (f content)).1) ∧
        Page.Uniform d fun content => (condense pretty (p content) (f content)).2) :
    Condenses d pretty fun content => f content :: fs content := by
  intro p hp
  obtain ⟨hfirst, hpage⟩ := hf p hp
  obtain ⟨hrest, hend⟩ := hfs _ hpage
  exact ⟨hfirst.append hrest, hend⟩

/-- A branch is condensed from a page that holds nothing. -/
theorem Condenses.branch (h : Condenses d pretty fs) {p : String → Page} (hp : Page.Uniform d p) :
    Uniform d fun content => condensedFrom pretty (p content) (fs content) := by
  obtain ⟨hdone, hend⟩ := h p hp
  exact hdone.append (collected hend)

/-- Condensing keeps fragments uniform. -/
theorem condenses (pretty : Bool) (h : Uniform d fs) : Condenses d pretty fs := by
  induction h with
  | nil => exact fun p hp => ⟨.nil, hp⟩
  | text ht _ ih => exact ih.cons fun p hp => ⟨.nil, hp.token ht⟩
  | delimiter s kind _ ih =>
    exact ih.cons fun p hp => ⟨.nil, hp.blind (Glyph.Blind.delimiter pretty s kind)⟩
  | group indented _ _ inner ih =>
    refine ih.cons fun p hp => ?_
    cases indented with
    | false => exact inner p hp
    | true =>
      obtain ⟨hdone, hend⟩ := inner _ (hp.blind (Glyph.Blind.enter pretty))
      exact ⟨hdone, hend.blind (Glyph.Blind.exit pretty)⟩
  | hole h _ ih =>
    refine ih.cons fun p hp => ?_
    have hgap := hp.blind Glyph.Blind.gap
    exact ⟨(collected hgap).append (.hole h .nil),
      hgap.cleared.blind (Glyph.Blind.settle h.qualifies)⟩
  | choice key _ _ _ first second ih =>
    refine ih.cons fun p hp => ?_
    have hchoice := choice key (first.branch hp.cleared) (second.branch hp.cleared) nil
    exact ⟨(collected hp).append hchoice, hp.cleared.blind (Glyph.Blind.settle false)⟩
  | each key between _ _ _ first second ih =>
    refine ih.cons fun p hp => ?_
    have hgap := hp.blind Glyph.Blind.gap
    have hfresh := hgap.cleared.blind Glyph.Blind.fresh
    have heach := each key between (first.branch hfresh) (second.branch hfresh) nil
    exact ⟨(collected hgap).append heach, hgap.cleared.blind (Glyph.Blind.settle false)⟩
  | cell index _ ih =>
    refine ih.cons fun p hp => ?_
    have hgap := hp.blind Glyph.Blind.gap
    exact ⟨(collected hgap).append (.cell index .nil),
      hgap.cleared.blind (Glyph.Blind.settle false)⟩

end Uniform

end Fragment

/-! ## Executions -/

namespace Step

/-- Steps that are the same but for the texts of tokens, and these are uniform. -/
inductive Uniform (d : Dialect) : (String → List Step) → Prop where
  | nil : Uniform d fun _ => []
  | same {steps} (step : Step) : Uniform d steps → Uniform d fun content => step :: steps content
  | token {t steps} : Text.Uniform d t → Uniform d steps →
      Uniform d fun content => .token (t content) :: steps content

namespace Uniform

variable {steps more : String → List Step}

theorem append (h : Uniform d steps) (h' : Uniform d more) :
    Uniform d fun content => steps content ++ more content := by
  induction h with
  | nil => exact h'
  | same step _ ih => exact .same step ih
  | token ht _ ih => exact .token ht ih

theorem intercalate (separator : Step) (rows : List (List Cell))
    {row : Nat → List Cell → String → List Step} (h : ∀ index cells, Uniform d (row index cells)) :
    Uniform d fun content =>
      List.intercalate [separator] (rows.mapIdx fun index cells => row index cells content) := by
  induction rows generalizing row with
  | nil => exact .nil
  | cons cells rows ih =>
    have hfirst := h 0 cells
    have hrest := ih fun index cells => h (index + 1) cells
    cases rows with
    | nil => simpa using hfirst
    | cons next rows =>
      simp only [List.mapIdx_cons, List.intercalate_cons_cons] at hrest ⊢
      exact (hfirst.append (.same separator .nil)).append hrest

/-- A run of uniform steps leaves a uniform page. -/
theorem actAll (h : Uniform d steps) (pretty : Bool) (spell : Marker → String) {p : String → Page}
    (hp : Page.Uniform d p) :
    Page.Uniform d fun content => actAll pretty spell (p content) (steps content) := by
  induction h generalizing p with
  | nil => exact hp
  | same step _ ih => exact ih (hp.blind (Glyph.blind_act pretty spell step))
  | token ht _ ih => exact ih (hp.token ht)

/-- Tokens ask for nothing, so the content has no say in what is asked for. -/
theorem exists_demands (h : Uniform d steps) :
    ∃ asked, ∀ content, demands (steps content) = asked := by
  induction h with
  | nil => exact ⟨[], fun _ => rfl⟩
  | same step _ ih =>
    obtain ⟨asked, hasked⟩ := ih
    exact ⟨if step.asks then step :: asked else asked, fun content => by
      simp only [demands_cons, hasked]⟩
  | token _ _ ih =>
    obtain ⟨asked, hasked⟩ := ih
    exact ⟨asked, hasked⟩

end Uniform

end Step

namespace Fragment.Uniform

variable {fs : String → List Fragment}

/-- An execution of uniform fragments takes uniform steps. -/
theorem walkAll (h : Uniform d fs) (a : Arguments) (q : QuoteMark) (row : Option RowAt) :
    Step.Uniform d fun content => walkAll a q row (fs content) := by
  induction h generalizing row with
  | nil => exact .nil
  | text ht _ ih => exact .token ht (ih row)
  | delimiter s kind _ ih => exact .same _ (ih row)
  | group indented _ _ inner ih =>
    cases indented with
    | false => exact (inner row).append (ih row)
    | true => exact ((inner row).append (.same .exit .nil) |>.same .enter).append (ih row)
  | hole h _ ih => exact .same .gap (.same _ (.same _ (ih row)))
  | choice key _ _ _ first second ih =>
    simp only [Fragment.walkAll, walk]
    cases a.alternative key with
    | false => exact ((first row).append (.same _ .nil)).append (ih row)
    | true => exact ((second row).append (.same _ .nil)).append (ih row)
  | each key between _ _ _ first second ih =>
    simp only [Fragment.walkAll, walk_each, repeated]
    cases a.rows key with
    | nil => exact (((second row).same .fresh).append (.same _ .nil) |>.same .gap).append (ih row)
    | cons cells rows =>
      have hrows := Step.Uniform.intercalate (.write between) (cells :: rows)
        fun index cells => (first (some ⟨key, index, cells⟩)).same .fresh
      exact (hrows.append (.same _ .nil) |>.same .gap).append (ih row)
  | cell index _ ih => exact .same .gap (.same _ (.same _ (ih row)))

end Fragment.Uniform

/-- Outcomes that depend on the content of a literal only where the literal itself is shown: the
same failure for all contents, or fixed pieces of text with the literal between them, and the same
values. -/
def Literal.Contained (d : Dialect) (outcome : String → Except Failure Sql) : Prop :=
  (∃ failure, ∀ content, outcome content = .error failure) ∨
    ∃ (first : String) (rest : List String) (params : List Value), ∀ content,
      outcome content = .ok ⟨(Literal.quoted d content).intercalate (first :: rest), params⟩

/-- Filling uniform fragments gives a contained outcome, in any format. -/
theorem Fragment.Uniform.contained_fill {fs : String → List Fragment} (h : Uniform d fs)
    (format : Format) (condensed : Bool) (a : Arguments) :
    Literal.Contained d fun content => Template.fill ⟨fs content, format, condensed⟩ a := by
  have hsteps : Step.Uniform d fun content => Template.steps ⟨fs content, format, condensed⟩ a :=
    h.walkAll a format.quote none
  obtain ⟨asked, hasked⟩ := hsteps.exists_demands
  have hmissing (content : String) :
      (Template.steps ⟨fs content, format, condensed⟩ a).findSome? Step.missing? =
        asked.findSome? Step.missing? := by
    rw [← Step.findSome?_demands, hasked]
  have hbound (content : String) : Template.bound ⟨fs content, format, condensed⟩ a =
      Marker.bound format.markers (Step.markers asked) := by
    rw [Template.bound, ← Step.markers_demands, hasked]
  cases hasks : asked.findSome? Step.missing? with
  | some what =>
    exact .inl ⟨_, fun content => Template.fill_of_missing ((hmissing content).trans hasks)⟩
  | none =>
    have hpage := hsteps.actAll format.pretty (Marker.spell format.markers
      ((Marker.bound format.markers (Step.markers asked)).map Marker.slot) (· + 1)) .start
    obtain ⟨gs, hgs⟩ := hpage.text
    obtain ⟨first, rest, hpieces⟩ := Glyph.exists_pieces (d := d) gs
    have htext (content : String) : Template.textWith ⟨fs content, format, condensed⟩ a (· + 1) =
        (Literal.quoted d content).intercalate (first :: rest) := by
      simp only [Template.textWith, hbound]
      exact (hgs content).trans (hpieces content)
    refine .inr ⟨first, rest, (Marker.bound format.markers (Step.markers asked)).map Marker.value,
      fun content => ?_⟩
    refine (Template.fill_of_complete ((hmissing content).trans hasks)).trans ?_
    rw [htext, hbound]

end PreparedSql
