import PreparedSql.Decimal.Double

/-!
# Values

Values are written into a statement as literals or bound to its parameters.
-/

namespace PreparedSql

inductive Value where
  | null
  | bool (b : Bool)
  | int32 (n : Int32)
  | int64 (n : Int64)
  | double (x : Double)
  | text (s : String)
  | bytes (b : List UInt8)
deriving DecidableEq, Repr

namespace Value

def isNull : Value → Bool
  | .null => true
  | _ => false

/-- The characters of a text value. -/
def asText? : Value → Option String
  | .text s => some s
  | _ => none

end Value

end PreparedSql
