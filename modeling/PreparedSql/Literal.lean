import PreparedSql.Failure
import PreparedSql.Text.Doubled
import PreparedSql.Text.Hex
import PreparedSql.Value

/-!
# Literals

How a value is written into the text of a statement. Every value but the
infinities and the not-a-numbers has a literal in every dialect.
-/

namespace PreparedSql

namespace Literal

/-- The characters that a string literal writes twice. -/
def special (d : Dialect) (c : Char) : Bool :=
  c == '\'' || (d.escapesBackslash && c == '\\')

/-- A string literal: a quote inside it is doubled, and so is a backslash where
it would start an escape. -/
def text (d : Dialect) (s : List Char) : List Char :=
  '\'' :: Text.double (special d) s ++ ['\'']

/-- What opens a literal of bytes. -/
def bytesOpening : Dialect → List Char
  | .postgresql => ['\'', '\\', 'x']
  | .sqlite | .mysql => ['X', '\'']

/-- A literal of bytes: two capital hexadecimal digits for each. -/
def bytes (d : Dialect) (b : List UInt8) : List Char :=
  bytesOpening d ++ Text.hexBytes b ++ ['\'']

/-- Truth values are numbers where the dialect has no literals for them. -/
def bool (d : Dialect) (b : Bool) : String :=
  match d.features.nativeBool, b with
  | true, true => "TRUE"
  | true, false => "FALSE"
  | false, true => "1"
  | false, false => "0"

/-- A number is recognised as fractional by its point. -/
def double (x : Double) : String :=
  if x.text.toList.contains '.' then x.text else x.text ++ ".0"

end Literal

/-- The literal of a value. -/
def Value.literal (d : Dialect) : Value → Except Limitation String
  | .null => .ok "NULL"
  | .bool b => .ok (Literal.bool d b)
  | .int32 n => .ok (toString n.toInt)
  | .int64 n => .ok (toString n.toInt)
  | .double x => if x.isFinite then .ok (Literal.double x) else .error (.notFinite x)
  | .text s => .ok (String.ofList (Literal.text d s.toList))
  | .bytes b => .ok (String.ofList (Literal.bytes d b))

end PreparedSql
