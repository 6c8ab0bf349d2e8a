import PreparedSql.Fragment
import PreparedSql.Text.Blank

/-!
# Pages

Statements are written as bare tokens. A page decides the white space between
them: single spaces in a line and, when printing prettily, line breaks and
indentation.

What is written is kept newest character first. The two rules that look back,
taking back a space before a closing parenthesis and moving an empty line to
another margin, then look at the front of a list.
-/

namespace PreparedSql

/-- What the page ends with, as far as the next token is concerned. -/
inductive Tail where
  /-- Nothing is written yet, or a line was begun. -/
  | start
  /-- White space. -/
  | space
  /-- An opening parenthesis or a point. -/
  | opening
  /-- Anything else. -/
  | word
  /-- A qualifying name, to which the next token attaches. -/
  | glue
deriving DecidableEq, Repr

/-- The tail of written characters, newest first. -/
def Tail.ofInk : List Char → Tail
  | [] => .start
  | c :: _ =>
    if Text.isBlank c then .space
    else if c == '(' || c == '.' then .opening
    else .word

structure Page where
  /-- The written characters, newest first. -/
  ink : List Char := []
  tail : Tail := .start
  indent : Nat := 0
  /-- Whether the current line has no tokens yet. -/
  lineStart : Bool := true
deriving DecidableEq, Repr

namespace Page

/-- Takes back a single space. A space that follows another blank stays. -/
def closeUp : List Char → List Char
  | ' ' :: c :: rest => if Text.isBlank c then ' ' :: c :: rest else c :: rest
  | ink => ink

/-- Characters before which no space is put. -/
def attaches (c : Char) : Bool := Text.isBlank c || c == ',' || c == '.' || c == ';'

/-- Prepares for a token that starts with `first`: a closing parenthesis takes
back a space, and other tokens are kept apart from a word before them. -/
def makeRoom (tail : Tail) (first : Char) (ink : List Char) : List Char :=
  if first == ')' then closeUp ink
  else if tail = .word && !attaches first then ' ' :: ink
  else ink

/-- Writes a token. An empty token leaves no trace. -/
def token (p : Page) (s : String) : Page :=
  match s.toList with
  | [] => p
  | first :: rest =>
    let ink := rest.reverse ++ first :: makeRoom p.tail first p.ink
    { p with ink, tail := .ofInk ink, lineStart := false }

/-- Writes a text as it is, without regard to spacing. -/
def write (p : Page) (s : String) : Page := { p with ink := s.toList.reverse ++ p.ink }

/-- Separates a text that is not known yet from a word before it. -/
def gap (p : Page) : Page :=
  if p.tail = .word then { p with ink := ' ' :: p.ink, tail := .space } else p

/-- Goes on after a text that is treated as a word, or as a qualifying name. -/
def settle (p : Page) (glued : Bool) : Page :=
  { p with tail := if glued then .glue else .word, lineStart := false }

/-- Starts over at the current indentation, as on an empty page. -/
def fresh (p : Page) : Page := { p with tail := .start, lineStart := true }

/-- The spaces before a line: four for each level. -/
def margin (indent : Nat) : List Char := List.replicate (4 * indent) ' '

/-- Begins a line, unless the current one is still empty. -/
def newline (p : Page) : Page :=
  if p.lineStart then p
  else { p with ink := margin p.indent ++ '\n' :: p.ink, tail := .start, lineStart := true }

/-- Moves an empty line to the current margin. -/
def reindent (p : Page) : Page :=
  match p.ink.dropWhile (· == ' ') with
  | '\n' :: rest => { p with ink := margin p.indent ++ '\n' :: rest }
  | _ => p

/-- Writes a delimiter and ends the line after it where the kind allows. -/
def delimiter (p : Page) (pretty : Bool) (s : String) (kind : DelimiterKind) : Page :=
  if pretty && kind.breaksLine then (p.token s).newline else p.token s

/-- Enters an indented group. -/
def enter (p : Page) (pretty : Bool) : Page :=
  if pretty then { p with indent := p.indent + 1 }.newline else p

/-- Leaves an indented group; what follows stands on a line of its own. -/
def exit (p : Page) (pretty : Bool) : Page :=
  if pretty then
    let out := { p with indent := p.indent - 1 }
    if out.lineStart then out.reindent else out.newline
  else p

/-- The written text. -/
def text (p : Page) : String := String.ofList p.ink.reverse

/-- The written text taken off the page, which goes on as if it were there. -/
def cleared (p : Page) : Page := { p with ink := [] }

end Page

end PreparedSql
