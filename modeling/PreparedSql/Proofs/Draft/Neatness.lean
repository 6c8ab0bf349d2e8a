import PreparedSql.Proofs.Statement.Closure
import PreparedSql.Proofs.Text.Numerals

/-!
# Drafts of statements are neat

Drafts of statements never write a lone space, and what they put in the branches
of choices and repetitions writes something before it opens a group. This needs
names to be quoted: without quotes, a name may be a space.

The predicates say it of a draft (`Neat`), of a list (`NeatAll`) and of a list
that may be a branch (`Stands`). They are closed under the ways in which
statements are written.
-/

namespace PreparedSql

/-- A text with a character other than a space: no token made of it is empty or
a lone space. -/
def Inked (s : String) : Prop := ∃ c ∈ s.toList, c ≠ ' '

instance (s : String) : Decidable (Inked s) :=
  decidable_of_iff (s.toList.any (· != ' ') = true) (by simp [Inked])

namespace Inked

theorem ne_empty {s : String} (h : Inked s) : s ≠ "" := by
  rintro rfl
  simp [Inked] at h

theorem ne_space {s : String} (h : Inked s) : s ≠ " " := by
  rintro rfl
  simp [Inked] at h

theorem append_left {s : String} (h : Inked s) (t : String) : Inked (s ++ t) := by
  obtain ⟨c, hc, hne⟩ := h
  exact ⟨c, by simp [hc], hne⟩

theorem append_right {s : String} (h : Inked s) (t : String) : Inked (t ++ s) := by
  obtain ⟨c, hc, hne⟩ := h
  exact ⟨c, by simp [hc], hne⟩

theorem natToString (n : Nat) : Inked (toString n) := by
  obtain ⟨c, hc⟩ := List.exists_mem_of_ne_nil _ (Text.numeral_ne_nil n)
  refine ⟨c, hc, ?_⟩
  rintro rfl
  exact absurd (Text.isDigit_of_mem_numeral hc) (by decide)

theorem intToString (n : Int) : Inked (toString n) := by
  cases n with
  | ofNat n => exact natToString n
  | negSucc n => exact (natToString (n + 1)).append_right "-"

/-- Quoted names show their quotes. -/
theorem quote {q : QuoteMark} (hq : q ≠ .plain) (name : String) : Inked (q.quote name) := by
  cases q with
  | plain => exact absurd rfl hq
  | double =>
    exact ⟨'"', by simp [QuoteMark.quote, QuoteMark.quoteChars, QuoteMark.char?], by decide⟩
  | backtick =>
    exact ⟨'\x60', by simp [QuoteMark.quote, QuoteMark.quoteChars, QuoteMark.char?], by decide⟩

theorem column {q : QuoteMark} (hq : q ≠ .plain) (table name : String) :
    Inked (q.column table name) :=
  ((quote hq table).append_left ".").append_left (q.quote name)

theorem literal {d : Dialect} {v : Value} {sql : String} (h : v.literal d = .ok sql) :
    Inked sql := by
  cases v with
  | null =>
    cases h
    exact ⟨'N', by decide, by decide⟩
  | bool b =>
    cases h
    cases hn : d.features.nativeBool <;> cases b <;> simp [Literal.bool, hn, Inked]
  | int32 n =>
    cases h
    exact intToString _
  | int64 n =>
    cases h
    exact intToString _
  | double x =>
    simp only [Value.literal] at h
    split at h
    · cases h
      refine ⟨'.', ?_, by decide⟩
      unfold Literal.double
      split
      · next hpoint => simpa using hpoint
      · simp
    · cases h
  | text s =>
    cases h
    exact ⟨'\'', by simp [Literal.text], by decide⟩
  | bytes b =>
    cases h
    exact ⟨'\'', by simp [Literal.bytes], by decide⟩

end Inked

namespace Draft

/-- Parts that write something first. A fault writes nothing at all, so it does
no harm either. -/
def Opens : Draft → Prop
  | .text s => s ≠ ""
  | .hole _ _ | .param _ | .column _ _ | .choice _ _ _ | .each _ _ _ _ | .cell _ | .fault _ => True
  | .delimiter _ _ | .group _ | .introduce _ | .tableName _ | .scope _ _ => False

/-- A list that is empty or writes something first. -/
def Leads : List Draft → Prop
  | [] => True
  | d :: _ => d.Opens

mutual

/-- No token inside is a lone space, and the branches lead. -/
def Neat : Draft → Prop
  | .text s => s ≠ " "
  | .delimiter s _ => s ≠ " "
  | .group children => NeatAll children
  | .scope _ children => NeatAll children
  | .choice _ main alternative =>
    (NeatAll main ∧ Leads main) ∧ NeatAll alternative ∧ Leads alternative
  | .each _ body empty _ => (NeatAll body ∧ Leads body) ∧ NeatAll empty ∧ Leads empty
  | _ => True

def NeatAll : List Draft → Prop
  | [] => True
  | d :: ds => d.Neat ∧ NeatAll ds

end

/-- What may be a branch of its own. -/
def Stands (ds : List Draft) : Prop := NeatAll ds ∧ Leads ds

section Lists

variable {d : Draft} {ds es : List Draft}

@[simp] theorem neatAll_nil : NeatAll [] := trivial

@[simp] theorem neatAll_cons : NeatAll (d :: ds) ↔ d.Neat ∧ NeatAll ds := Iff.rfl

@[simp] theorem neatAll_append : NeatAll (ds ++ es) ↔ NeatAll ds ∧ NeatAll es := by
  induction ds with
  | nil => simp
  | cons d ds ih => simp [ih, and_assoc]

theorem leads_append (hds : Leads ds) (hes : Leads es) : Leads (ds ++ es) := by
  cases ds with
  | nil => exact hes
  | cons d ds => exact hds

theorem Stands.append (hds : Stands ds) (hes : Stands es) : Stands (ds ++ es) :=
  ⟨neatAll_append.2 ⟨hds.1, hes.1⟩, leads_append hds.2 hes.2⟩

end Lists

variable {s : Spelling}

/-- With quoted names, all texts of statements show something. -/
theorem Wording.inked {P : String → Prop} {w : String} (hq : s.quote ≠ .plain)
    (h : Wording s P w) : Inked w := by
  cases h with
  | word h =>
    have hall : ∀ w ∈ keywords, Inked w := by decide +kernel
    exact hall w h
  | call _ => exact .append_right (by decide) _
  | ident name => exact .quote hq name
  | literal h => exact .literal h

/-- Neatness is closed under the ways in which statements are written, whatever functions they
call. -/
theorem pervasive_neatAll (hq : s.quote ≠ .plain) :
    Pervasive s (fun _ => True) NeatAll Stands where
  weaken h := h.1
  nil := ⟨trivial, trivial⟩
  append hds hes := neatAll_append.2 ⟨hds, hes⟩
  concat := Stands.append
  lead hw hds := ⟨⟨(hw.inked hq).ne_space, hds⟩, (hw.inked hq).ne_empty⟩
  closing := ⟨by simp [Neat], trivial⟩
  line := ⟨by simp [Neat], trivial⟩
  comma _ := ⟨by simp [Neat], trivial⟩
  qualifier _ := ⟨trivial, trivial⟩
  column _ _ := ⟨⟨trivial, trivial⟩, trivial⟩
  introduce _ := ⟨trivial, trivial⟩
  tableName _ := ⟨trivial, trivial⟩
  group hds := ⟨hds, trivial⟩
  scope hds := ⟨hds, trivial⟩
  choice hmain halternative := ⟨⟨⟨hmain, halternative⟩, trivial⟩, trivial⟩
  fault _ := ⟨⟨trivial, trivial⟩, trivial⟩
  hole _ _ := ⟨⟨trivial, trivial⟩, trivial⟩
  param _ := ⟨⟨trivial, trivial⟩, trivial⟩
  cell _ := ⟨⟨trivial, trivial⟩, trivial⟩
  each _ _ hbody hempty := ⟨⟨⟨hbody, hempty⟩, trivial⟩, trivial⟩

end Draft

/-- With quoted names, the drafts of statements are neat. -/
theorem Statement.neatAll_draft {s : Spelling} (hq : s.quote ≠ .plain) (statement : Statement) :
    Draft.NeatAll (statement.draft s) :=
  statement.pervasive_draft (Draft.pervasive_neatAll hq) fun _ _ => trivial

end PreparedSql
