import PreparedSql.Failure
import PreparedSql.Fragment
import PreparedSql.Identifier
import PreparedSql.Naming.Label

/-!
# Drafts

A draft is a statement laid out in its dialect but without names: it says where
a table is introduced, where its alias is written, which columns and parameters
are referred to, and which parts open a scope of their own. What is wrong with a
statement stands in the draft at the place where a reader would come across it.

Giving names turns a draft into fragments.
-/

namespace PreparedSql

/-- The dialect a statement is written in and the quotes around its names. -/
structure Spelling where
  dialect : Dialect
  quote : QuoteMark
deriving DecidableEq, Repr

def Spelling.features (s : Spelling) : Features := s.dialect.features

/-- What a part with a scope of its own is. -/
inductive ScopeKind where
  /-- An operand of a set operation. -/
  | operand
  /-- A statement inside another; the target outside is not its own. -/
  | nested
  /-- An update or delete. Its target keeps the table's name if it can, and the
  columns of the target are written without it. -/
  | target (t : TableLabel)
deriving DecidableEq, Repr

inductive Draft where
  | text (s : String)
  | delimiter (s : String) (kind : DelimiterKind)
  /-- An indented group. -/
  | group (children : List Draft)
  /-- A hole that needs no name. -/
  | hole (h : Hole) (unnamed : h.isParam = false)
  | param (p : Param)
  | column (table : TableId) (name : String)
  /-- Gives a table its alias, writing nothing. -/
  | introduce (t : TableLabel)
  /-- Writes the alias of a table, unless it is the table's own name. -/
  | tableName (t : TableLabel)
  | scope (kind : ScopeKind) (children : List Draft)
  | choice (key : Key) (main alternative : List Draft)
  | each (key : Key) (body empty : List Draft) (between : String)
  | cell (index : Nat)
  /-- The statement cannot be written. -/
  | fault (cause : Cause)

namespace Draft

/-- A clause starts on a line of its own. -/
def clause (ds : List Draft) : List Draft := .delimiter "" .row :: ds

/-- Parts with a comma between. -/
def commas (kind : DelimiterKind) (parts : List (List Draft)) : List Draft :=
  List.intercalate [.delimiter "," kind] parts

/-- Parts with a word between. -/
def words (word : String) (parts : List (List Draft)) : List Draft :=
  List.intercalate [.text word] parts

def parens (ds : List Draft) : List Draft := .text "(" :: ds ++ [.text ")"]

def parensIf (b : Bool) (ds : List Draft) : List Draft := if b then parens ds else ds

/-- A statement inside another, in a scope and an indented group of its own. -/
def nested (ds : List Draft) : Draft := .scope .nested [.group ds]

def malformed (what : Flaw) : Draft := .fault (.malformed what)

def unsupported (what : Limitation) : Draft := .fault (.unsupported what)

/-- The dialect lacks a feature. -/
def lacks (s : Spelling) (feature : Feature) : Draft := unsupported (.lacks s.dialect feature)

def ident (s : Spelling) (name : String) : Draft := .text (s.quote.quote name)

end Draft

end PreparedSql
