import PreparedSql.Arguments
import PreparedSql.Failure
import PreparedSql.Fragment
import PreparedSql.Identifier

/-!
# Steps of an execution

Given its arguments, an execution goes through a template in order: it enters one
branch of each choice and the body of each repetition once for every row. The
walk records what it meets as a flat list of steps. What the arguments lack is a
step too, so the walk itself never fails and the steps of two lists of fragments
are the steps of the one followed by those of the other.
-/

namespace PreparedSql

/-- What a marker stands for. Markers of one slot share a bound value where the
style allows. -/
inductive Slot where
  | param (p : Param)
  | cell (collection : Key) (row column : Nat)
deriving DecidableEq, Repr

structure Marker where
  slot : Slot
  name : String
  value : Value
deriving DecidableEq, Repr

inductive Step where
  | token (s : String)
  | delimiter (s : String) (kind : DelimiterKind)
  /-- Enters an indented group. -/
  | enter
  /-- Leaves an indented group. -/
  | exit
  /-- Separates a supplied text from a word before it. -/
  | gap
  /-- Writes a supplied text as it is. -/
  | write (s : String)
  | marker (m : Marker)
  /-- Goes on after supplied text. -/
  | settle (glued : Bool)
  /-- Starts over at the current indentation. -/
  | fresh
  /-- Meets a place that the arguments leave open. -/
  | missing (what : Missing)
deriving DecidableEq, Repr

/-- The row a repetition is at. -/
structure RowAt where
  collection : Key
  index : Nat
  cells : List Cell
deriving DecidableEq, Repr

/-- The name of a cell's marker: collection, row and column. Characters of the
key that cannot be part of a marker become underscores. -/
def RowAt.markerName (r : RowAt) (column : Nat) : String :=
  r.collection.map (fun c => if c.isAlphanum then c else '_') ++ "_" ++ toString r.index ++ "_" ++
    toString column

/-- What a cell of the current row contributes. -/
def RowAt.step (row : Option RowAt) (column : Nat) : Step :=
  match row with
  | none => .missing (.cell "" column 0)
  | some r =>
    match r.cells[column]? with
    | none => .missing (.cell r.collection column r.cells.length)
    | some (.inline s) => .write s
    | some (.value v) => .marker ⟨.cell r.collection r.index column, r.markerName column, v⟩

/-- What fills a hole. An interface without a number of its own matches no rows,
so it stands for zero. -/
def Hole.step (a : Arguments) (q : QuoteMark) : Hole → Step
  | .param p name =>
    match a.param p with
    | some v => .marker ⟨.param p, name, v⟩
    | none => .missing (.param name)
  | .inline key =>
    match a.inline key with
    | some s => .write s
    | none => .missing (.inline key)
  | .schema s => .write (q.qualifier (a.schema s.name))
  | .catalog c => .write (q.qualifier (a.catalog c.name))
  | .typeId t =>
    match a.typeId t with
    | some number => .write (toString number.toInt)
    | none => if t.interface then .write "0" else .missing (.type t.name)

namespace Fragment

mutual

/-- The steps of one fragment at the given row. -/
def walk (a : Arguments) (q : QuoteMark) (row : Option RowAt) : Fragment → List Step
  | .text s => [.token s]
  | .delimiter s kind => [.delimiter s kind]
  | .group false children => walkAll a q row children
  | .group true children => .enter :: walkAll a q row children ++ [.exit]
  | .hole h => [.gap, h.step a q, .settle h.qualifies]
  | .cell index => [.gap, RowAt.step row index, .settle false]
  | .choice key main alternative =>
    (if a.alternative key then walkAll a q row alternative else walkAll a q row main) ++
      [.settle false]
  | .each key body empty between =>
    let inner :=
      match a.rows key with
      | [] => .fresh :: walkAll a q row empty
      | rows =>
        List.intercalate [.write between]
          (rows.mapIdx fun index cells => .fresh :: walkAll a q (some ⟨key, index, cells⟩) body)
    .gap :: inner ++ [.settle false]

/-- The steps of fragments in order. -/
def walkAll (a : Arguments) (q : QuoteMark) (row : Option RowAt) : List Fragment → List Step
  | [] => []
  | f :: fs => walk a q row f ++ walkAll a q row fs

end

@[simp] theorem walkAll_nil (a : Arguments) (q : QuoteMark) (row : Option RowAt) :
    walkAll a q row [] = [] := rfl

@[simp] theorem walkAll_append (a : Arguments) (q : QuoteMark) (row : Option RowAt)
    (fs gs : List Fragment) :
    walkAll a q row (fs ++ gs) = walkAll a q row fs ++ walkAll a q row gs := by
  induction fs with
  | nil => rfl
  | cons f fs ih => simp [walkAll, ih]

end Fragment

end PreparedSql
