import PreparedSql.Object
import PreparedSql.Value

/-!
# Arguments

What one execution supplies for the open places of a statement. Arguments are
given by what they answer, so a later answer simply replaces an earlier one.
-/

namespace PreparedSql

/-- A cell of a row: text written as it is, or a value bound to a marker. -/
inductive Cell where
  | inline (s : String)
  | value (v : Value)
deriving DecidableEq, Repr

structure Arguments where
  param : Param → Option Value := fun _ => none
  inline : Key → Option String := fun _ => none
  /-- Whether a choice takes its alternative. -/
  alternative : Key → Bool := fun _ => false
  /-- The rows of a collection. -/
  rows : Key → List (List Cell) := fun _ => []
  /-- The numbers registered for types. -/
  typeId : EntityType → Option Int64 := fun _ => none
  /-- Physical names of schemas. -/
  schema : String → String := id
  /-- Physical names of catalogs. -/
  catalog : String → String := id

namespace Arguments

/-- Changes one answer of a function. -/
def answer {α β : Type} [DecidableEq α] (f : α → β) (key : α) (value : β) : α → β :=
  fun x => if x = key then value else f x

def setParam (a : Arguments) (p : Param) (v : Value) : Arguments :=
  { a with param := answer a.param p (some v) }

def setInline (a : Arguments) (key : Key) (s : String) : Arguments :=
  { a with inline := answer a.inline key (some s) }

def setAlternative (a : Arguments) (key : Key) : Arguments :=
  { a with alternative := answer a.alternative key true }

def setRows (a : Arguments) (key : Key) (rows : List (List Cell)) : Arguments :=
  { a with rows := answer a.rows key rows }

def setTypeId (a : Arguments) (t : EntityType) (number : Int64) : Arguments :=
  { a with typeId := answer a.typeId t (some number) }

def setSchema (a : Arguments) (logical physical : String) : Arguments :=
  { a with schema := answer a.schema logical physical }

def setCatalog (a : Arguments) (logical physical : String) : Arguments :=
  { a with catalog := answer a.catalog logical physical }

end Arguments

end PreparedSql
