import PreparedSql.Dialect
import PreparedSql.Text.Doubled

/-!
# Identifiers

An identifier is written between quotes, a quote inside it twice, so that any
name can be used. Without quoting it is written as it is.
-/

namespace PreparedSql

/-- What stands around an identifier. -/
inductive QuoteMark where
  | plain
  | double
  | backtick
deriving DecidableEq, Repr

namespace QuoteMark

/-- The quote character, if names are quoted at all. -/
def char? : QuoteMark → Option Char
  | .plain => none
  | .double => some '"'
  | .backtick => some '\x60'

/-- The characters of a quoted name. -/
def quoteChars (q : QuoteMark) (name : List Char) : List Char :=
  match q.char? with
  | none => name
  | some c => c :: Text.double (· == c) name ++ [c]

def quote (q : QuoteMark) (name : String) : String :=
  String.ofList (q.quoteChars name.toList)

/-- A column seen through a named table. -/
def column (q : QuoteMark) (table name : String) : String :=
  q.quote table ++ "." ++ q.quote name

/-- What qualifies the name that follows; an empty name qualifies nothing. -/
def qualifier (q : QuoteMark) (name : String) : String :=
  if name.isEmpty then "" else q.quote name ++ "."

end QuoteMark

/-- MySQL quotes identifiers with backticks, the others with double quotes. -/
def Dialect.quoteMark : Dialect → QuoteMark
  | .mysql => .backtick
  | .sqlite | .postgresql => .double

end PreparedSql
