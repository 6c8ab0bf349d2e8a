import PreparedSql.Naming.Alias
import PreparedSql.Naming.Label
import PreparedSql.Text.Lowercase

/-!
# Names of one statement

Every table occurrence of a statement gets an alias and every parameter a name.
An alias is visible in the scope that introduced it and in the scopes inside,
but once handed out it is never handed out again, so no two occurrences can be
confused whatever the scopes do. Parameter names ignore scopes. They are stored,
so a parameter keeps its name also when the stem of the names changes.

Aliases are compared in lower case.
-/

namespace PreparedSql

structure Names where
  /-- The visible aliases, oldest first. -/
  aliases : List (TableId × String) := []
  /-- Every alias handed out and every reserved name, in lower case. Never
  shrinks. -/
  taken : List String := []
  /-- How many members of the alias sequence were looked at. -/
  drawn : Nat := 0
  /-- The parameters met and their names, in order. -/
  params : List (Param × String) := []
  /-- What the names of further parameters start with. -/
  stem : String := "p"
  /-- Whether tables of the current scope are given generated aliases. -/
  aliasing : Bool := true
  /-- What a scope starts with. -/
  defaultAliasing : Bool := true
  /-- How deeply the current place is indented. -/
  indent : Nat := 0
deriving DecidableEq, Repr

namespace Names

/-- Naming with nothing named yet. -/
def start (stem : String) (aliasing : Bool) : Names :=
  { stem, aliasing, defaultAliasing := aliasing }

def isTaken (ns : Names) (name : String) : Bool := ns.taken.contains (Text.lower name)

/-- Makes a name unavailable for aliases. -/
def take (ns : Names) (name : String) : Names :=
  if ns.isTaken name then ns else { ns with taken := ns.taken ++ [Text.lower name] }

/-- Makes a name unavailable and says whether it was available before. -/
def reserve (ns : Names) (name : String) : Bool × Names := (!ns.isTaken name, ns.take name)

/-- The alias visible for an occurrence. -/
def lookup (ns : Names) (t : TableId) : Option String := ns.aliases.lookup t

/-- The names that may be used without drawing one, best first: the one asked
for and, with aliasing off, the table's own. -/
def candidates (ns : Names) (t : TableLabel) : List String :=
  t.explicitName.toList ++ if ns.aliasing then [] else t.table.toList

/-- Draws the next generated alias that is free. -/
def draw (ns : Names) : String × Names :=
  let place := Alias.firstFree ns.isTaken ns.taken.length ns.drawn
  (Alias.nth place, { ns with drawn := place + 1 })

/-- Picks an alias for an occurrence: the best candidate that is free, or else a
generated one. -/
def choose (ns : Names) (t : TableLabel) : String × Names :=
  match (ns.candidates t).find? (!ns.isTaken ·) with
  | some name => (name, ns)
  | none => ns.draw

/-- Makes an alias visible for an occurrence. -/
def publish (ns : Names) (t : TableId) (name : String) : Names :=
  { ns with aliases := ns.aliases ++ [(t, name)] }

/-- The alias of an occurrence, given to it on first use. -/
def aliasOf (ns : Names) (t : TableLabel) : String × Names :=
  match ns.lookup t.id with
  | some name => (name, ns)
  | none =>
    let (name, chosen) := ns.choose t
    (name, (chosen.take name).publish t.id name)

/-- The name of a parameter, given to it on first use: the stem and a number. -/
def param (ns : Names) (p : Param) : String × Names :=
  match ns.params.lookup p with
  | some name => (name, ns)
  | none =>
    let name := ns.stem ++ toString ns.params.length
    (name, { ns with params := ns.params ++ [(p, name)] })

@[simp] theorem aliases_param (ns : Names) (p : Param) : (ns.param p).2.aliases = ns.aliases := by
  unfold param
  split <;> rfl

@[simp] theorem taken_param (ns : Names) (p : Param) : (ns.param p).2.taken = ns.taken := by
  unfold param
  split <;> rfl

@[simp] theorem drawn_param (ns : Names) (p : Param) : (ns.param p).2.drawn = ns.drawn := by
  unfold param
  split <;> rfl

/-- Changes what the names of further parameters start with. -/
def setStem (ns : Names) (stem : String) : Names := { ns with stem }

/-- Turns generated aliases on or off until the scope closes. -/
def setAliasing (ns : Names) (aliasing : Bool) : Names := { ns with aliasing }

def indented (ns : Names) : Names := { ns with indent := ns.indent + 1 }

def outdented (ns : Names) : Names := { ns with indent := ns.indent - 1 }

/-- What closing a scope goes back to. -/
structure Mark where
  visible : Nat
  aliasing : Bool
  indent : Nat
deriving DecidableEq, Repr

/-- Marks the current place. -/
def mark (ns : Names) : Mark := ⟨ns.aliases.length, ns.aliasing, ns.indent⟩

/-- Opens a scope for a nested statement. Whatever the enclosing statement does
about aliasing, the scope starts with the default. -/
def openScope (ns : Names) : Names := { ns with aliasing := ns.defaultAliasing }

/-- Closes the scope opened at a mark: the aliases given since are hidden. -/
def closeScope (ns : Names) (m : Mark) : Names :=
  { ns with aliases := ns.aliases.take m.visible, aliasing := m.aliasing, indent := m.indent }

end Names

end PreparedSql
