import PreparedSql.Object

/-!
# Fragments

A written statement is a list of fragments. Most are final text; the others mark
what only an execution can complete: holes, choices between two lists of
fragments, fragments repeated for each row of a collection, and the cells of the
current row.

Spacing is not part of the fragments. It is decided when they are laid out, from
the kinds of delimiter and the groups.
-/

namespace PreparedSql

/-- Delimiters after a column or a row may end the line. -/
inductive DelimiterKind where
  | column
  | row
  | other
deriving DecidableEq, Repr

def DelimiterKind.breaksLine : DelimiterKind → Bool
  | .column | .row => true
  | .other => false

/-- A place filled by a single item at execution. -/
inductive Hole where
  /-- A marker for a bound parameter, under its allocated name. -/
  | param (p : Param) (name : String)
  /-- A text written as it is. -/
  | inline (key : Key)
  /-- The physical name of a schema, qualifying what follows. -/
  | schema (s : Schema)
  /-- The physical name of a catalog, qualifying what follows. -/
  | catalog (c : Catalog)
  /-- The number registered for a type. -/
  | typeId (t : EntityType)
deriving DecidableEq, Repr

/-- Whether the next token attaches to what fills the hole. -/
def Hole.qualifies : Hole → Bool
  | .schema _ | .catalog _ => true
  | .param _ _ | .inline _ | .typeId _ => false

/-- Whether the hole is a parameter's, and so has a name. -/
def Hole.isParam : Hole → Bool
  | .param _ _ => true
  | .inline _ | .schema _ | .catalog _ | .typeId _ => false

inductive Fragment where
  | text (s : String)
  | delimiter (s : String) (kind : DelimiterKind)
  /-- Fragments that belong together, on lines of their own when indented. -/
  | group (indented : Bool) (children : List Fragment)
  | hole (h : Hole)
  /-- One of two lists, picked at execution. -/
  | choice (key : Key) (main alternative : List Fragment)
  /-- The body once for each row of a collection, with a text between, or
  the empty case when there are no rows. -/
  | each (key : Key) (body empty : List Fragment) (between : String)
  /-- A cell of the current row. -/
  | cell (index : Nat)
deriving Repr

namespace Fragment

mutual

/-- Equality of fragments, as a test. -/
def same : Fragment → Fragment → Bool
  | .text s, .text s' => s == s'
  | .delimiter s kind, .delimiter s' kind' => s == s' && kind == kind'
  | .group indented children, .group indented' children' =>
    indented == indented' && sameAll children children'
  | .hole h, .hole h' => h == h'
  | .choice key main alternative, .choice key' main' alternative' =>
    key == key' && sameAll main main' && sameAll alternative alternative'
  | .each key body empty between, .each key' body' empty' between' =>
    key == key' && sameAll body body' && sameAll empty empty' && between == between'
  | .cell index, .cell index' => index == index'
  | _, _ => false

/-- Equality of lists of fragments, as a test. -/
def sameAll : List Fragment → List Fragment → Bool
  | [], [] => true
  | f :: fs, f' :: fs' => same f f' && sameAll fs fs'
  | _, _ => false

end

mutual

theorem same_iff : (f f' : Fragment) → (same f f' = true ↔ f = f')
  | .text _, f' => by cases f' <;> simp [same]
  | .delimiter _ _, f' => by cases f' <;> simp [same]
  | .group _ children, f' => by cases f' <;> simp [same, sameAll_iff children]
  | .hole _, f' => by cases f' <;> simp [same]
  | .choice _ main alternative, f' => by
    cases f' <;> simp [same, sameAll_iff main, sameAll_iff alternative, and_assoc]
  | .each _ body empty _, f' => by
    cases f' <;> simp [same, sameAll_iff body, sameAll_iff empty, and_assoc]
  | .cell _, f' => by cases f' <;> simp [same]

theorem sameAll_iff : (fs fs' : List Fragment) → (sameAll fs fs' = true ↔ fs = fs')
  | [], fs' => by cases fs' <;> simp [sameAll]
  | f :: fs, fs' => by cases fs' <;> simp [sameAll, same_iff f, sameAll_iff fs]

end

instance : DecidableEq Fragment := fun f f' => decidable_of_iff _ (same_iff f f')

/-- Fragments that cannot be written without an execution. -/
def isOpen : Fragment → Bool
  | .hole _ | .choice _ _ _ | .each _ _ _ _ | .cell _ => true
  | .text _ | .delimiter _ _ | .group _ _ => false

mutual

/-- A fragment and all fragments inside it. -/
def count : Fragment → Nat
  | .group _ children => 1 + countAll children
  | .choice _ main alternative => 1 + (countAll main + countAll alternative)
  | .each _ body empty _ => 1 + (countAll body + countAll empty)
  | _ => 1

def countAll : List Fragment → Nat
  | [] => 0
  | f :: fs => count f + countAll fs

end

theorem countAll_append (fs gs : List Fragment) :
    countAll (fs ++ gs) = countAll fs + countAll gs := by
  induction fs with
  | nil => simp [countAll]
  | cons f fs ih => simp [countAll, ih, Nat.add_assoc]

mutual

/-- Whether a fragment is written alike by every execution: groups are looked
into. -/
def isStatic : Fragment → Bool
  | .group _ children => allStatic children
  | f => !f.isOpen

def allStatic : List Fragment → Bool
  | [] => true
  | f :: fs => isStatic f && allStatic fs

end

theorem allStatic_eq_all (fs : List Fragment) : allStatic fs = fs.all isStatic := by
  induction fs with
  | nil => rfl
  | cons f fs ih => simp [allStatic, ih]

end Fragment

end PreparedSql
